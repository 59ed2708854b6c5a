import Mathlib.Algebra.BigOperators.Fin
import Mathlib.Algebra.Order.BigOperators.Group.List
import Mathlib.Analysis.Real.Sqrt
import Mathlib.Data.Matrix.Mul
import Mathlib.LinearAlgebra.Matrix.RowCol
import Mathlib.LinearAlgebra.Matrix.Notation
import Mathlib.Tactic.Ring

/-!
# SoundScreen.AuxIVA.Unmix

`AuxIVA/auxiva.cpp`: the demixing of two channels, one call of `unmix` for each frame, in exact
arithmetic and with the mathematical matrix operations. `fourier` is not in the source; its result
`x`, one vector for each frequency bin, is an argument. A divisor that is zero (not positive,
under the root of line 64) is an error that names its line.

* `unmix_first_divisor`: the first divisor of a call is non-zero exactly when row 0 of some
  `W[freq]` is not orthogonal to `x[freq]`.
* `unmix_zero_covariance`: with `V` all zeros the call divides by zero whatever `W` is.
* `unmix_run_iff`: started from the zeros of the constructors no run survives its first frame.
-/

namespace SoundScreen
namespace AuxIVA

def FFT_WINDOW : Nat := 4096
def UPDATES_PER_FRAME : Nat := 2
abbrev NUM_INPUTS : Nat := 2
abbrev FREQUENCY_BINS : Nat := FFT_WINDOW / 2 + 1

/-- The divisor that was zero. -/
inductive ZeroDivisor where
  | line60 (k : Fin NUM_INPUTS) (freq : Fin FREQUENCY_BINS)
  | line63 (k : Fin NUM_INPUTS) (freq : Fin FREQUENCY_BINS)
  | line64 (k : Fin NUM_INPUTS) (freq : Fin FREQUENCY_BINS)
  deriving DecidableEq, Repr

abbrev Mat2 (K : Type) := Matrix (Fin NUM_INPUTS) (Fin NUM_INPUTS) K
abbrev Vec2 (K : Type) := Fin NUM_INPUTS → K

/-- The static variables of `unmix`. -/
structure Statics (K : Type) where
  W : Fin FREQUENCY_BINS → Mat2 K
  V : Fin NUM_INPUTS → Fin FREQUENCY_BINS → Mat2 K

/-- `sqrt` of the C library. -/
structure Sqrt (K : Type) [Field K] [LinearOrder K] where
  sqrt : K → K
  sqrt_nonneg : ∀ z, 0 ≤ z → 0 ≤ sqrt z
  mul_self_sqrt : ∀ z, 0 ≤ z → sqrt z * sqrt z = z

section Source

variable {K : Type} [Field K] [LinearOrder K]

def ALPHA (K : Type) [Field K] : K := 96 / 100

/-- `Matrix::determinant`. -/
def determinant (m : Mat2 K) : K := m 0 0 * m 1 1 - m 0 1 * m 1 0

/-- `Matrix::inverse`, its divisor non-zero. -/
def inverse (m : Mat2 K) : Mat2 K :=
  (determinant m)⁻¹ • Matrix.of ![![m 1 1, -m 0 1], ![-m 1 0, m 0 0]]

/-- Lines 48 to 53: `r_k[k]` after the squares of all bins are added to it. -/
def accumulate (x : Fin FREQUENCY_BINS → Vec2 K) (W : Fin FREQUENCY_BINS → Mat2 K)
    (k : Fin NUM_INPUTS) (r : K) : K :=
  (List.finRange FREQUENCY_BINS).foldl (fun r freq => r + |W freq k ⬝ᵥ x freq| ^ 2) r

/-- Lines 58 to 66, for one bin. -/
def update_bin (S : Sqrt K) (x : Fin FREQUENCY_BINS → Vec2 K) (k : Fin NUM_INPUTS) (r : K)
    (st : Statics K) (freq : Fin FREQUENCY_BINS) : Except ZeroDivisor (Statics K) :=
  if r = 0 then .error (.line60 k freq) else
  let V := ALPHA K • st.V k freq + (1 - ALPHA K) • r⁻¹ • Matrix.vecMulVec (x freq) (x freq)
  let m := st.W freq * V
  if determinant m = 0 then .error (.line63 k freq) else
  let w_k := (inverse m).mulVec (Pi.single k 1)
  let norm := w_k ⬝ᵥ V.mulVec w_k
  if ¬ 0 < norm then .error (.line64 k freq) else
  let w_k := (S.sqrt norm)⁻¹ • w_k
  .ok { W := Function.update st.W freq ((st.W freq).updateRow k w_k)
        V := Function.update st.V k (Function.update (st.V k) freq V) }

/-- The loop body over `k`, on `r_k` and the static variables. -/
def update_source (S : Sqrt K) (x : Fin FREQUENCY_BINS → Vec2 K) (st : Vec2 K × Statics K)
    (k : Fin NUM_INPUTS) : Except ZeroDivisor (Vec2 K × Statics K) := do
  let r := S.sqrt (accumulate x st.2.W k (st.1 k))
  let statics ← (List.finRange FREQUENCY_BINS).foldlM (update_bin S x k r) st.2
  return (Function.update st.1 k r, statics)

/-- One call: the static variables after it and, if not `setup`, the estimated sources `y`. -/
def unmix (S : Sqrt K) (setup : Bool) (x : Fin FREQUENCY_BINS → Vec2 K) (st : Statics K) :
    Except ZeroDivisor (Statics K × Option (Fin FREQUENCY_BINS → Vec2 K)) := do
  let passes := (List.range UPDATES_PER_FRAME).flatMap fun _ => List.finRange NUM_INPUTS
  let (_, statics) ← passes.foldlM (update_source S x) (fun _ => 0, st)
  return (statics, if setup then none else some fun freq => (statics.W freq).mulVec (x freq))

/-- The static variables as their constructors leave them. -/
def zeros : Statics K := ⟨fun _ => 0, fun _ _ => 0⟩

/-- A run: one call for each frame. -/
def unmix_run (S : Sqrt K) : List (Bool × (Fin FREQUENCY_BINS → Vec2 K)) → Statics K →
    Except ZeroDivisor (Statics K)
  | [], st => .ok st
  | (setup, x) :: frames, st => do
    let (statics, _) ← unmix S setup x st
    unmix_run S frames statics

end Source

section Determinants

variable {K : Type} [Field K]

theorem determinant_mul (a b : Mat2 K) : determinant (a * b) = determinant a * determinant b := by
  simp only [determinant, Matrix.mul_apply, Fin.sum_univ_two]
  ring

/-- The first covariance of a bin is a multiple of `x * x^T`. -/
theorem determinant_rank_one (c : K) (v : Vec2 K) :
    determinant (c • Matrix.vecMulVec v v) = 0 := by
  simp only [determinant, Matrix.smul_apply, Matrix.vecMulVec_apply, smul_eq_mul]
  ring

end Determinants

section Divisors

variable {K : Type} [Field K] [LinearOrder K]

theorem Sqrt.eq_zero_iff (S : Sqrt K) {z : K} (h : 0 ≤ z) : S.sqrt z = 0 ↔ z = 0 := by
  have hmul := S.mul_self_sqrt z h
  constructor
  · intro h0
    rw [← hmul, h0, mul_zero]
  · intro h0
    rw [h0] at hmul ⊢
    exact mul_self_eq_zero.mp hmul

/-- The squares that the bins contribute to `r_k[k]`. -/
def squares (x : Fin FREQUENCY_BINS → Vec2 K) (W : Fin FREQUENCY_BINS → Mat2 K)
    (k : Fin NUM_INPUTS) : List K :=
  (List.finRange FREQUENCY_BINS).map fun freq => |W freq k ⬝ᵥ x freq| ^ 2

theorem mem_squares {x : Fin FREQUENCY_BINS → Vec2 K} {W : Fin FREQUENCY_BINS → Mat2 K}
    {k : Fin NUM_INPUTS} {z : K} : z ∈ squares x W k ↔ ∃ freq, |W freq k ⬝ᵥ x freq| ^ 2 = z := by
  simp only [squares, List.mem_map, List.mem_finRange, true_and]

theorem accumulate_eq (x : Fin FREQUENCY_BINS → Vec2 K) (W : Fin FREQUENCY_BINS → Mat2 K)
    (k : Fin NUM_INPUTS) (r : K) : accumulate x W k r = r + (squares x W k).sum := by
  unfold accumulate squares
  generalize List.finRange FREQUENCY_BINS = bins
  induction bins generalizing r with
  | nil => simp only [List.foldl_nil, List.map_nil, List.sum_nil, add_zero]
  | cons freq bins ih => rw [List.foldl_cons, ih, List.map_cons, List.sum_cons, add_assoc]

/-- A call whose first step over the first bin divides by zero ends there. -/
theorem unmix_first_bin (S : Sqrt K) (setup : Bool) (x : Fin FREQUENCY_BINS → Vec2 K)
    (st : Statics K) {e : ZeroDivisor}
    (h : update_bin S x 0 (S.sqrt (accumulate x st.W 0 0)) st 0 = .error e) :
    unmix S setup x st = .error e := by
  have hpasses : ((List.range UPDATES_PER_FRAME).flatMap fun _ => List.finRange NUM_INPUTS) =
      [0, 1, 0, 1] := rfl
  have hsource : update_source S x (fun _ => 0, st) 0 = .error e := by
    have hbins : (List.finRange FREQUENCY_BINS).foldlM
        (update_bin S x 0 (S.sqrt (accumulate x st.W 0 0))) st = .error e := by
      rw [List.finRange_succ, List.foldlM_cons, h]
      rfl
    unfold update_source
    simp only [hbins]
    rfl
  unfold unmix
  simp only [hpasses, List.foldlM_cons, hsource]
  rfl

theorem unmix_run_cons (S : Sqrt K) (setup : Bool) (x : Fin FREQUENCY_BINS → Vec2 K)
    (frames : List (Bool × (Fin FREQUENCY_BINS → Vec2 K))) (st : Statics K) {e : ZeroDivisor}
    (h : unmix S setup x st = .error e) : unmix_run S ((setup, x) :: frames) st = .error e := by
  unfold unmix_run
  rw [h]
  rfl

variable [IsStrictOrderedRing K]

theorem squares_nonneg (x : Fin FREQUENCY_BINS → Vec2 K) (W : Fin FREQUENCY_BINS → Mat2 K)
    (k : Fin NUM_INPUTS) : ∀ z ∈ squares x W k, 0 ≤ z := by
  intro z hz
  obtain ⟨freq, rfl⟩ := mem_squares.mp hz
  exact sq_nonneg _

/-- The first `r_k[k]` of a call is non-zero exactly when some bin contributes to it. -/
theorem unmix_first_divisor (S : Sqrt K) (x : Fin FREQUENCY_BINS → Vec2 K)
    (W : Fin FREQUENCY_BINS → Mat2 K) (k : Fin NUM_INPUTS) :
    S.sqrt (accumulate x W k 0) ≠ 0 ↔ ∃ freq, W freq k ⬝ᵥ x freq ≠ 0 := by
  have hnonneg := squares_nonneg x W k
  rw [accumulate_eq, zero_add, ne_eq, S.eq_zero_iff (List.sum_nonneg hnonneg)]
  constructor
  · intro h
    by_contra hn
    refine h (List.sum_eq_zero ?_)
    intro z hz
    obtain ⟨freq, rfl⟩ := mem_squares.mp hz
    have horth := not_not.mp (not_exists.mp hn freq)
    rw [horth, abs_zero, zero_pow two_ne_zero]
  · intro ⟨freq, hfreq⟩ h
    have hz := List.all_zero_of_le_zero_le_of_sum_eq_zero hnonneg h (mem_squares.mpr ⟨freq, rfl⟩)
    exact hfreq (abs_eq_zero.mp (pow_eq_zero_iff two_ne_zero |>.mp hz))

/-- With all covariances zero a call divides by zero in its first bin, whatever `W` is. -/
theorem unmix_zero_covariance (S : Sqrt K) (setup : Bool) (x : Fin FREQUENCY_BINS → Vec2 K)
    (W : Fin FREQUENCY_BINS → Mat2 K) :
    unmix S setup x ⟨W, fun _ _ => 0⟩ =
      .error (if ∃ freq, W freq 0 ⬝ᵥ x freq ≠ 0 then .line63 0 0 else .line60 0 0) := by
  apply unmix_first_bin
  by_cases hex : ∃ freq, W freq 0 ⬝ᵥ x freq ≠ 0
  · have hr := (unmix_first_divisor S x W 0).mpr hex
    unfold update_bin
    simp only [if_pos hex, if_neg hr, smul_zero, zero_add, smul_smul, determinant_mul,
      determinant_rank_one, mul_zero, if_pos]
  · have hr := not_not.mp (mt (unmix_first_divisor S x W 0).mp hex)
    unfold update_bin
    simp only [if_neg hex, if_pos hr]

theorem unmix_zeros (S : Sqrt K) (setup : Bool) (x : Fin FREQUENCY_BINS → Vec2 K) :
    unmix S setup x zeros = .error (.line60 0 0) := by
  unfold zeros
  rw [unmix_zero_covariance, if_neg]
  intro ⟨freq, h⟩
  exact h (zero_dotProduct _)

/-- No run survives its first frame: from the zeros of the constructors line 60 divides by zero.
Another `W` would only move the failure to line 63, and it is row 0 of `W` that decides. -/
theorem unmix_run_iff (S : Sqrt K) (frames : List (Bool × (Fin FREQUENCY_BINS → Vec2 K))) :
    ((∃ st, unmix_run S frames zeros = .ok st) ↔ frames = []) ∧
    (frames ≠ [] → unmix_run S frames zeros = .error (.line60 0 0)) ∧
    (∀ W, (∃ st, unmix_run S frames ⟨W, fun _ _ => 0⟩ = .ok st) ↔ frames = []) ∧
    ∀ x W k, S.sqrt (accumulate x W k 0) ≠ 0 ↔ ∃ freq, W freq k ⬝ᵥ x freq ≠ 0 := by
  have hzero : ∀ W, (∃ st, unmix_run S frames ⟨W, fun _ _ => 0⟩ = .ok st) ↔ frames = [] := by
    intro W
    cases frames with
    | nil => exact ⟨fun _ => rfl, fun _ => ⟨_, rfl⟩⟩
    | cons frame frames =>
      have hfail := unmix_run_cons S frame.1 frame.2 frames _
        (unmix_zero_covariance S frame.1 frame.2 W)
      constructor
      · intro ⟨st, hst⟩
        rw [hfail] at hst
        cases hst
      · intro h
        cases h
  refine ⟨hzero _, ?_, hzero, unmix_first_divisor S⟩
  intro hne
  cases frames with
  | nil => exact absurd rfl hne
  | cons frame frames =>
    exact unmix_run_cons S frame.1 frame.2 frames _ (unmix_zeros S frame.1 frame.2)

end Divisors

/-- The square root of the reals. -/
noncomputable def real_sqrt : Sqrt ℝ where
  sqrt := Real.sqrt
  sqrt_nonneg := fun z _ => Real.sqrt_nonneg z
  mul_self_sqrt := fun _ h => Real.mul_self_sqrt h

/-- A frame heard by the first microphone only, the same in every bin. -/
def one_sided : Fin FREQUENCY_BINS → Vec2 ℝ := fun _ => ![1, 0]

theorem unmix_run_iff_one_sided :
    ¬ ∃ st, unmix_run real_sqrt [(true, one_sided)] zeros = .ok st :=
  mt (unmix_run_iff real_sqrt [(true, one_sided)]).1.mp (List.cons_ne_nil _ _)

theorem one_sided_divides_by_zero : (∀ freq, one_sided freq ≠ 0) ∧
    unmix_run real_sqrt [(true, one_sided)] zeros = .error (.line60 0 0) := by
  constructor
  · intro freq h
    exact one_ne_zero (congrFun h 0)
  · exact unmix_run_cons _ _ _ _ _ (unmix_zeros _ _ _)

end AuxIVA
end SoundScreen
