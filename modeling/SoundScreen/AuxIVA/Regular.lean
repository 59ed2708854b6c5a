import Mathlib.Algebra.Order.Field.Basic
import Mathlib.LinearAlgebra.Matrix.DotProduct
import Mathlib.LinearAlgebra.Matrix.ToLinearEquiv
import Mathlib.Tactic.Linarith
import Mathlib.Tactic.NormNum
import SoundScreen.AuxIVA.Unmix
import SoundScreen.Lib.Outcome

/-!
# SoundScreen.AuxIVA.Regular

What the update of a bin needs and keeps: demixing matrices that can be inverted and covariances
that are positive (`Regular`), as the zeros of the constructors are not.

* `update_bin_regular`: with a positive `r_k[k]` the update of a bin divides by no zero.
* `unmix_run_regular`: from regular static variables, such as the identity matrices
  (`regular_identity`), the only divisor of a run that can be zero is `r_k[k]`.
-/

namespace SoundScreen
namespace AuxIVA

open Outcome

section Matrices

variable {K : Type} [Field K]

theorem determinant_eq_det (m : Mat2 K) : determinant m = m.det := (Matrix.det_fin_two m).symm

theorem mul_inverse {m : Mat2 K} (h : determinant m ≠ 0) : m * inverse m = 1 := by
  have hdet : m.det ≠ 0 := determinant_eq_det m ▸ h
  have hadj : inverse m = m.det⁻¹ • m.adjugate := by
    rw [inverse, Matrix.adjugate_fin_two, determinant_eq_det]
  rw [hadj, Matrix.mul_smul, Matrix.mul_adjugate, smul_smul, inv_mul_cancel₀ hdet, one_smul]

/-- The new row `k` of `W` is not a combination of the others: these are orthogonal to `V * w_k`,
and `w_k` is not. -/
theorem determinant_updateRow {W V : Mat2 K} {k : Fin NUM_INPUTS} {w : Vec2 K} {c : K}
    (hW : determinant W ≠ 0) (hc : c ≠ 0) (hw : W.mulVec (V.mulVec w) = Pi.single k 1)
    (hq : w ⬝ᵥ V.mulVec w ≠ 0) : determinant (W.updateRow k (c • w)) ≠ 0 := by
  rw [determinant_eq_det] at hW ⊢
  intro hdet
  obtain ⟨u, hu, hzero⟩ := Matrix.exists_vecMul_eq_zero_iff.mpr hdet
  have hrow : (W.updateRow k (c • w)).mulVec (V.mulVec w) =
      Pi.single k (c * (w ⬝ᵥ V.mulVec w)) := by
    funext i
    by_cases hi : i = k
    · rw [hi, Matrix.mulVec, Matrix.updateRow_self, smul_dotProduct, Pi.single_eq_same, smul_eq_mul]
    · have hold := congrFun hw i
      rw [Pi.single_eq_of_ne hi] at hold ⊢
      rw [Matrix.mulVec, Matrix.updateRow_ne hi]
      exact hold
  have huk : u k = 0 := by
    have hdot : u ⬝ᵥ (W.updateRow k (c • w)).mulVec (V.mulVec w) = 0 := by
      rw [Matrix.dotProduct_mulVec, hzero, zero_dotProduct]
    rw [hrow, dotProduct_single] at hdot
    exact (mul_eq_zero.mp hdot).resolve_right (mul_ne_zero hc hq)
  refine hW (Matrix.exists_vecMul_eq_zero_iff.mp ⟨u, hu, ?_⟩)
  rw [← hzero]
  funext j
  simp only [Matrix.vecMul, dotProduct]
  refine Finset.sum_congr rfl ?_
  intro i _
  by_cases hi : i = k
  · rw [hi, huk, zero_mul, zero_mul]
  · rw [Matrix.updateRow_ne hi]

end Matrices

variable {K : Type} [Field K] [LinearOrder K]

def Positive (V : Mat2 K) : Prop := ∀ v, v ≠ 0 → 0 < v ⬝ᵥ V.mulVec v

structure Regular (st : Statics K) : Prop where
  demixing : ∀ freq, determinant (st.W freq) ≠ 0
  covariance : ∀ k freq, Positive (st.V k freq)

theorem Regular.update {st : Statics K} (h : Regular st) {m V : Mat2 K} {k : Fin NUM_INPUTS}
    {freq : Fin FREQUENCY_BINS} (hm : determinant m ≠ 0) (hV : Positive V) :
    Regular { W := Function.update st.W freq m
              V := Function.update st.V k (Function.update (st.V k) freq V) } := by
  constructor
  · intro freq'
    by_cases hf : freq' = freq
    · simp only [hf, Function.update_self]
      exact hm
    · simp only [Function.update_of_ne hf]
      exact h.demixing freq'
  · intro k' freq'
    by_cases hk : k' = k
    · by_cases hf : freq' = freq
      · simp only [hk, hf, Function.update_self]
        exact hV
      · simp only [hk, Function.update_self, Function.update_of_ne hf]
        exact h.covariance k freq'
    · simp only [Function.update_of_ne hk]
      exact h.covariance k' freq'

theorem Positive.determinant_ne_zero {V : Mat2 K} (h : Positive V) : determinant V ≠ 0 := by
  rw [determinant_eq_det]
  intro hdet
  obtain ⟨v, hv, hzero⟩ := Matrix.exists_mulVec_eq_zero_iff.mpr hdet
  have hpos := h v hv
  rw [hzero, dotProduct_zero] at hpos
  exact lt_irrefl _ hpos

variable [IsStrictOrderedRing K]

/-- A share of the old covariance keeps the new one positive. -/
theorem Positive.update {V : Mat2 K} (h : Positive V) {r : K} (hr : 0 < r) (x : Vec2 K) :
    Positive (ALPHA K • V + (1 - ALPHA K) • r⁻¹ • Matrix.vecMulVec x x) := by
  have hα : 0 < ALPHA K := by unfold ALPHA; norm_num
  have hβ : 0 < 1 - ALPHA K := by unfold ALPHA; norm_num
  intro v hv
  have hold := mul_pos hα (h v hv)
  have hsquare : v ⬝ᵥ (Matrix.vecMulVec x x).mulVec v = (v ⬝ᵥ x) * (v ⬝ᵥ x) := by
    simp only [dotProduct, Matrix.mulVec, Matrix.vecMulVec_apply, Fin.sum_univ_two]
    ring
  have hnew : 0 ≤ (1 - ALPHA K) * (r⁻¹ * ((v ⬝ᵥ x) * (v ⬝ᵥ x))) :=
    mul_nonneg hβ.le (mul_nonneg (inv_nonneg.mpr hr.le) (mul_self_nonneg _))
  rw [Matrix.add_mulVec, dotProduct_add, Matrix.smul_mulVec, Matrix.smul_mulVec,
    Matrix.smul_mulVec, dotProduct_smul, dotProduct_smul, dotProduct_smul, hsquare]
  simp only [smul_eq_mul]
  linarith

/-- With a positive `r_k[k]` the update of a bin divides by no zero and keeps the statics
regular. -/
theorem update_bin_regular (S : Sqrt K) (x : Fin FREQUENCY_BINS → Vec2 K) (k : Fin NUM_INPUTS)
    {r : K} (hr : 0 < r) {st : Statics K} (h : Regular st) (freq : Fin FREQUENCY_BINS) :
    ∃ st', update_bin S x k r st freq = .ok st' ∧ Regular st' := by
  have hV := (h.covariance k freq).update hr (x freq)
  unfold update_bin
  generalize ALPHA K • st.V k freq + (1 - ALPHA K) • r⁻¹ • Matrix.vecMulVec (x freq) (x freq) = V
    at hV ⊢
  have hW := h.demixing freq
  have hdet : determinant (st.W freq * V) ≠ 0 := by
    rw [determinant_mul]
    exact mul_ne_zero hW hV.determinant_ne_zero
  have hw : (st.W freq).mulVec (V.mulVec ((inverse (st.W freq * V)).mulVec (Pi.single k 1))) =
      Pi.single k 1 := by
    rw [Matrix.mulVec_mulVec, Matrix.mulVec_mulVec, mul_inverse hdet, Matrix.one_mulVec]
  generalize hwk : (inverse (st.W freq * V)).mulVec (Pi.single k 1) = w at hw
  have hne : w ≠ 0 := by
    intro h0
    rw [h0, Matrix.mulVec_zero, Matrix.mulVec_zero] at hw
    have hk := congrFun hw k
    rw [Pi.single_eq_same] at hk
    exact zero_ne_one hk
  have hnorm := hV w hne
  have hsqrt : (S.sqrt (w ⬝ᵥ V.mulVec w))⁻¹ ≠ 0 :=
    inv_ne_zero (mt (S.eq_zero_iff hnorm.le).mp hnorm.ne')
  simp only [if_neg hr.ne', if_neg hdet, hwk, if_neg (not_not.mpr hnorm)]
  exact ⟨_, rfl, h.update (determinant_updateRow hW hsqrt hw hnorm.ne') hV⟩

/-! ## Runs -/

/-- The divisor of line 60, which the first bin finds to be zero. -/
def AtLine60 (e : ZeroDivisor) : Prop := ∃ k, e = .line60 k 0

theorem accumulate_nonneg (x : Fin FREQUENCY_BINS → Vec2 K) (W : Fin FREQUENCY_BINS → Mat2 K)
    (k : Fin NUM_INPUTS) {r : K} (hr : 0 ≤ r) : 0 ≤ accumulate x W k r := by
  rw [accumulate_eq]
  exact add_nonneg hr (List.sum_nonneg (squares_nonneg x W k))

theorem update_bins_regular (S : Sqrt K) (x : Fin FREQUENCY_BINS → Vec2 K) (k : Fin NUM_INPUTS)
    {r : K} (hr : 0 ≤ r) {st : Statics K} (h : Regular st) :
    Ends Regular AtLine60 ((List.finRange FREQUENCY_BINS).foldlM (update_bin S x k r) st) := by
  by_cases h0 : r = 0
  · have hfail : update_bin S x k r st 0 = .error (.line60 k 0) := if_pos h0
    rw [List.finRange_succ, List.foldlM_cons, hfail]
    exact .error ⟨k, rfl⟩
  · have hpos : 0 < r := lt_of_le_of_ne hr (Ne.symm h0)
    refine Ends.foldlM ?_ _ h
    intro st freq hst
    obtain ⟨st', hok, hst'⟩ := update_bin_regular S x k hpos hst freq
    exact .inl ⟨st', hok, hst'⟩

theorem update_source_regular (S : Sqrt K) (x : Fin FREQUENCY_BINS → Vec2 K)
    (st : Vec2 K × Statics K) (k : Fin NUM_INPUTS) (h : (∀ j, 0 ≤ st.1 j) ∧ Regular st.2) :
    Ends (fun st' => (∀ j, 0 ≤ st'.1 j) ∧ Regular st'.2) AtLine60 (update_source S x st k) := by
  have hr := S.sqrt_nonneg _ (accumulate_nonneg x st.2.W k (h.1 k))
  unfold update_source
  refine (update_bins_regular S x k hr h.2).bind ?_
  intro statics hst
  refine .ok ⟨?_, hst⟩
  intro j
  by_cases hj : j = k
  · simp only [hj, Function.update_self]
    exact hr
  · simp only [Function.update_of_ne hj]
    exact h.1 j

theorem unmix_regular (S : Sqrt K) (setup : Bool) (x : Fin FREQUENCY_BINS → Vec2 K)
    {st : Statics K} (h : Regular st) :
    Ends (fun result => Regular result.1) AtLine60 (unmix S setup x st) := by
  unfold unmix
  refine (Ends.foldlM (update_source_regular S x) _ ⟨fun _ => le_rfl, h⟩).bind ?_
  intro result hresult
  exact .ok hresult.2

/-- In a run from regular static variables they stay regular, and `r_k[k]` is the only divisor
that can be zero. -/
theorem unmix_run_regular (S : Sqrt K) (frames : List (Bool × (Fin FREQUENCY_BINS → Vec2 K)))
    {st : Statics K} (h : Regular st) : Ends Regular AtLine60 (unmix_run S frames st) := by
  induction frames generalizing st with
  | nil => exact .ok h
  | cons frame frames ih =>
    unfold unmix_run
    exact (unmix_regular S frame.1 frame.2 h).bind fun result hst => ih hst

theorem regular_identity : Regular (⟨fun _ => 1, fun _ _ => 1⟩ : Statics K) := by
  constructor
  · intro freq
    rw [determinant_eq_det, Matrix.det_one]
    exact one_ne_zero
  · intro k freq v hv
    rw [Matrix.one_mulVec]
    have hne : v ⬝ᵥ v ≠ 0 := mt dotProduct_self_eq_zero.mp hv
    exact lt_of_le_of_ne (Finset.sum_nonneg fun i _ => mul_self_nonneg (v i)) hne.symm

end AuxIVA
end SoundScreen
