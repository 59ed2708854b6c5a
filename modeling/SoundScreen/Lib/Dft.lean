import Mathlib.Algebra.BigOperators.Intervals
import Mathlib.Algebra.BigOperators.Ring.Finset
import Mathlib.Algebra.Ring.GeomSum
import Mathlib.Tactic.LinearCombination
import Mathlib.Tactic.Ring

/-!
# SoundScreen.Lib.Dft

The discrete Fourier transform of a sequence over any commutative ring, with a power of one as its
root.

* `dft_radix`: a transform of length `p * m` from `p` transforms of length `m`.
* `dft_dft`: the transform with the inverse root gives the sequence back, `n` times.
* `dft_circular`: the transform of a circular convolution is the product of the transforms.
* `map_dft`: a homomorphism that inverts the root reverses the transform of what it fixes.
-/

namespace SoundScreen
namespace Dft

open Finset

variable {A : Type*} [CommRing A]

/-- Coefficient `k` of the transform of length `n`. -/
def dft (w : A) (n : Nat) (x : Nat → A) (k : Nat) : A := ∑ j ∈ range n, x j * w ^ (j * k)

theorem dft_congr {w : A} {n : Nat} {x y : Nat → A} (h : ∀ j < n, x j = y j) (k : Nat) :
    dft w n x k = dft w n y k := by
  refine sum_congr rfl ?_
  intro j hj
  rw [h j (mem_range.mp hj)]

theorem dft_zero (w : A) (n : Nat) (x : Nat → A) : dft w n x 0 = ∑ j ∈ range n, x j := by
  simp [dft]

theorem dft_one (w : A) (x : Nat → A) (k : Nat) : dft w 1 x k = x 0 := by
  simp [dft]

theorem dft_mul_left (w : A) (n : Nat) (c : A) (x : Nat → A) (k : Nat) :
    dft w n (fun j => c * x j) k = c * dft w n x k := by
  rw [dft, dft, mul_sum]
  refine sum_congr rfl ?_
  intro j _
  rw [mul_assoc]

theorem dft_add (w : A) (n : Nat) (x y : Nat → A) (k : Nat) :
    dft w n (fun j => x j + y j) k = dft w n x k + dft w n y k := by
  rw [dft, dft, dft, ← sum_add_distrib]
  refine sum_congr rfl ?_
  intro j _
  rw [add_mul]

/-! ## Powers of the root -/

theorem pow_mod {w : A} {n : Nat} (h : w ^ n = 1) (k : Nat) : w ^ (k % n) = w ^ k := by
  conv_rhs => rw [← Nat.mod_add_div k n, pow_add, pow_mul, h, one_pow, mul_one]

/-- The coefficients have period `n`. -/
theorem dft_mod {w : A} {n : Nat} (h : w ^ n = 1) (x : Nat → A) (k : Nat) :
    dft w n x (k % n) = dft w n x k := by
  refine sum_congr rfl ?_
  intro j _
  rw [mul_comm j, mul_comm j, pow_mul, pow_mod h, ← pow_mul]

/-! ## Decimation -/

/-- A sum over `p * m` places, by their remainder modulo `p`. -/
theorem sum_range_mul {M : Type*} [AddCommMonoid M] (f : Nat → M) (p m : Nat) :
    ∑ j ∈ range (p * m), f j = ∑ q ∈ range p, ∑ i ∈ range m, f (q + i * p) := by
  induction m with
  | zero => simp
  | succ m ih =>
    rw [Nat.mul_succ, sum_range_add, ih, ← sum_add_distrib]
    refine sum_congr rfl ?_
    intro q _
    rw [sum_range_succ, Nat.mul_comm p m, Nat.add_comm q]

/-- Decimation in time: `p` transforms of length `m`, each of every `p`-th element, are turned and
then transformed among each other. -/
theorem dft_radix {w : A} {p m : Nat} (h : w ^ (p * m) = 1) (x : Nat → A) (u v : Nat) :
    dft w (p * m) x (u + v * m) =
      dft (w ^ m) p (fun q => dft (w ^ p) m (fun i => x (q + i * p)) u * w ^ (q * u)) v := by
  rw [dft, sum_range_mul, dft]
  refine sum_congr rfl ?_
  intro q _
  rw [dft, sum_mul, sum_mul]
  refine sum_congr rfl ?_
  intro i _
  have hturns : (q + i * p) * (u + v * m) =
      p * (i * u) + (q * u + m * (q * v)) + p * m * (i * v) := by
    ring
  rw [hturns, pow_add, pow_mul w (p * m), h, one_pow, mul_one, pow_add, pow_add, pow_mul w p,
    pow_mul w m, mul_assoc, mul_assoc]

/-! ## The inverse -/

/-- The powers of `w` are those of a circle with `n` places, and add up to nothing in every other
direction. -/
structure Principal (w : A) (n : Nat) : Prop where
  pow_eq_one : w ^ n = 1
  sum_eq_zero : ∀ d, 0 < d → d < n → ∑ j ∈ range n, w ^ (d * j) = 0

theorem Principal.of_isUnit {w : A} {n : Nat} (h : w ^ n = 1)
    (hunit : ∀ d, 0 < d → d < n → IsUnit (w ^ d - 1)) : Principal w n := by
  refine ⟨h, ?_⟩
  intro d hpos hlt
  have hgeom := geom_sum_mul (w ^ d) n
  rw [← pow_mul, mul_comm d n, pow_mul, h, one_pow, sub_self] at hgeom
  simp only [pow_mul]
  exact (hunit d hpos hlt).mul_left_eq_zero.mp hgeom

/-- With the inverse root the directions cancel too. -/
theorem Principal.sum_inverse {w v : A} {n : Nat} (h : Principal w n) (hv : w * v = 1) {j k : Nat}
    (hj : j < n) (hk : k < n) :
    ∑ i ∈ range n, w ^ (j * i) * v ^ (i * k) = if j = k then (n : A) else 0 := by
  have hcancel : ∀ a : Nat, w ^ a * v ^ a = 1 := fun a => by rw [← mul_pow, hv, one_pow]
  -- a step back is `n - 1` steps on
  have hback : ∀ a ≤ n, v ^ a = w ^ (n - a) := by
    intro a ha
    calc v ^ a = w ^ n * v ^ a := by rw [h.pow_eq_one, one_mul]
      _ = w ^ (n - a) * (w ^ a * v ^ a) := by
        rw [← mul_assoc, ← pow_add, Nat.sub_add_cancel ha]
      _ = w ^ (n - a) := by rw [hcancel, mul_one]
  split
  · rename_i heq
    subst heq
    have hall : ∀ i ∈ range n, w ^ (j * i) * v ^ (i * j) = 1 := by
      intro i _
      rw [mul_comm i, hcancel]
    rw [sum_congr rfl hall, sum_const, card_range, nsmul_eq_mul, mul_one]
  · rename_i hne
    have hsum : ∀ i, w ^ (j * i) * v ^ (i * k) = w ^ ((j + (n - k)) % n * i) := by
      intro i
      rw [mul_comm i k, pow_mul v, hback k (Nat.le_of_lt hk), ← pow_mul, ← pow_add, ← add_mul,
        pow_mul, pow_mul, pow_mod h.pow_eq_one]
    simp only [hsum]
    refine h.sum_eq_zero _ ?_ (Nat.mod_lt _ (by omega))
    rcases Nat.lt_or_gt_of_ne hne with hlt | hgt
    · rw [Nat.mod_eq_of_lt (by omega)]
      omega
    · rw [show j + (n - k) = j - k + n by omega, Nat.add_mod_right, Nat.mod_eq_of_lt (by omega)]
      omega

theorem dft_dft {w v : A} {n : Nat} (h : Principal w n) (hv : w * v = 1) (x : Nat → A) {k : Nat}
    (hk : k < n) : dft v n (dft w n x) k = n * x k := by
  calc dft v n (dft w n x) k
      = ∑ j ∈ range n, ∑ i ∈ range n, x j * (w ^ (j * i) * v ^ (i * k)) := by
        rw [dft, sum_comm]
        refine sum_congr rfl ?_
        intro i _
        rw [dft, sum_mul]
        exact sum_congr rfl fun j _ => mul_assoc _ _ _
    _ = ∑ j ∈ range n, x j * if j = k then (n : A) else 0 := by
        refine sum_congr rfl ?_
        intro j hj
        rw [← mul_sum, h.sum_inverse hv (mem_range.mp hj) hk]
    _ = n * x k := by
        rw [sum_eq_single_of_mem k (mem_range.mpr hk)]
        · rw [if_pos rfl, mul_comm]
        · intro j _ hne
          rw [if_neg hne, mul_zero]

/-! ## Convolution -/

/-- Entry `k` of the circular convolution. -/
def circular (n : Nat) (x y : Nat → A) (k : Nat) : A :=
  ∑ j ∈ range n, x j * y ((k + (n - j)) % n)

/-- A sum over a circle does not depend on where it starts. -/
theorem sum_rotate {M : Type*} [AddCommMonoid M] (f : Nat → M) {n a : Nat} (ha : a ≤ n) :
    ∑ k ∈ range n, f ((k + (n - a)) % n) = ∑ k ∈ range n, f k := by
  refine sum_nbij' (fun k => (k + (n - a)) % n) (fun k => (k + a) % n) ?_ ?_ ?_ ?_ ?_
  · intro k hk
    exact mem_range.mpr (Nat.mod_lt _ (Nat.zero_lt_of_lt (mem_range.mp hk)))
  · intro k hk
    exact mem_range.mpr (Nat.mod_lt _ (Nat.zero_lt_of_lt (mem_range.mp hk)))
  · intro k hk
    rw [Nat.mod_add_mod, show k + (n - a) + a = k + n by omega, Nat.add_mod_right,
      Nat.mod_eq_of_lt (mem_range.mp hk)]
  · intro k hk
    rw [Nat.mod_add_mod, show k + a + (n - a) = k + n by omega, Nat.add_mod_right,
      Nat.mod_eq_of_lt (mem_range.mp hk)]
  · exact fun k _ => rfl

theorem dft_circular {w : A} {n : Nat} (h : w ^ n = 1) (x y : Nat → A) (k : Nat) :
    dft w n (circular n x y) k = dft w n x k * dft w n y k := by
  calc dft w n (circular n x y) k
      = ∑ j ∈ range n, ∑ i ∈ range n, x j * y ((i + (n - j)) % n) * w ^ (i * k) := by
        rw [dft, sum_comm]
        refine sum_congr rfl ?_
        intro i _
        rw [circular, sum_mul]
    _ = ∑ j ∈ range n, ∑ i ∈ range n, x j * w ^ (j * k) * (y i * w ^ (i * k)) := by
        refine sum_congr rfl ?_
        intro j hj
        have hj := mem_range.mp hj
        rw [← sum_rotate (fun i => x j * w ^ (j * k) * (y i * w ^ (i * k))) (Nat.le_of_lt hj)]
        refine sum_congr rfl ?_
        intro i _
        have hpow : w ^ (i * k) = w ^ (j * k) * w ^ ((i + (n - j)) % n * k) := by
          rw [← pow_add, ← add_mul, pow_mul w i, pow_mul w (j + _), ← pow_mod h i,
            ← pow_mod h (j + _), Nat.add_mod_mod,
            show j + (i + (n - j)) = i + n by omega, Nat.add_mod_right]
        rw [hpow]
        ring
    _ = dft w n x k * dft w n y k := by
        rw [dft, dft, sum_mul]
        exact sum_congr rfl fun j _ => (mul_sum _ _ _).symm

/-! ## Sequences that a homomorphism fixes -/

/-- Conjugation turns the circle the other way round. -/
theorem map_dft {σ : A →+* A} {w : A} {n : Nat} (h : w ^ n = 1) (hσ : w * σ w = 1) {x : Nat → A}
    (hx : ∀ j < n, σ (x j) = x j) {k : Nat} (hk : k ≤ n) :
    σ (dft w n x (n - k)) = dft w n x k := by
  rw [dft, dft, map_sum]
  refine sum_congr rfl ?_
  intro j hj
  rw [map_mul, map_pow, hx j (mem_range.mp hj)]
  congr 1
  calc σ w ^ (j * (n - k)) = (w ^ n) ^ j * σ w ^ (j * (n - k)) := by rw [h, one_pow, one_mul]
    _ = w ^ (j * k) * (w * σ w) ^ (j * (n - k)) := by
      rw [← pow_mul, mul_pow, ← mul_assoc, ← pow_add, ← mul_add, Nat.add_sub_cancel' hk,
        mul_comm n]
    _ = w ^ (j * k) := by rw [hσ, one_pow, mul_one]

end Dft
end SoundScreen
