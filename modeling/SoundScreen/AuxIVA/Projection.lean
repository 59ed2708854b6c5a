import Mathlib.Analysis.SpecialFunctions.Log.Basic
import SoundScreen.AuxIVA.Auxiliary

/-!
# SoundScreen.AuxIVA.Projection

What the passes of `unmix` are for, with the mathematical matrices of `Unmix` (with those of `mat.h`
no pass ends, see `Shapes`). Lines 63 to 66 make row `k` of `W` the best one for the new covariance
`V[k]`, the other rows as they are (`Projected`); lines 50 to 60 need a source that is heard in some
bin.

* `unmix_projected`: what a call that meets no zero divisor leaves, whatever it started from.
* `pass_minimizes`: no other row `k` has a smaller `objective` than the one a pass leaves.
* `unmix_run_error_iff`: a run from regular static variables meets a zero divisor at the first frame
  in which one of the sources is heard in no bin, and nowhere else.
-/

namespace SoundScreen
namespace AuxIVA

open Outcome

/-! ## The new row -/

/-- Row `k` of `W` has length 1 in the covariance `V`, and the other rows are orthogonal to it. -/
structure Projected {K : Type} [Field K] (W V : Mat2 K) (k : Fin NUM_INPUTS) : Prop where
  demixing : determinant W ≠ 0
  dual : W.mulVec (V.mulVec (W k)) = Pi.single k 1

section Rows

variable {K : Type} [Field K] {W V : Mat2 K} {k : Fin NUM_INPUTS}

theorem Projected.scaled (h : Projected W V k) : W k ⬝ᵥ V.mulVec (W k) = 1 := by
  have hk := congrFun h.dual k
  rwa [Pi.single_eq_same] at hk

theorem Projected.orthogonal (h : Projected W V k) {j : Fin NUM_INPUTS} (hj : j ≠ k) :
    W j ⬝ᵥ V.mulVec (W k) = 0 := by
  have hother := congrFun h.dual j
  rwa [Pi.single_eq_of_ne hj] at hother

/-- Lines 63 to 66: `c` is the factor of line 64. -/
theorem projected_update {w : Vec2 K} {c : K} (hm : determinant (W * V) ≠ 0)
    (hw : (inverse (W * V)).mulVec (Pi.single k 1) = w) (hc : c * (c * (w ⬝ᵥ V.mulVec w)) = 1) :
    Projected (W.updateRow k (c • w)) V k := by
  have hdual : W.mulVec (V.mulVec w) = Pi.single k 1 := by
    rw [← hw, Matrix.mulVec_mulVec, Matrix.mulVec_mulVec, mul_inverse hm, Matrix.one_mulVec]
  have hc0 : c ≠ 0 := left_ne_zero_of_mul_eq_one hc
  have hq : w ⬝ᵥ V.mulVec w ≠ 0 :=
    right_ne_zero_of_mul (right_ne_zero_of_mul_eq_one hc)
  rw [determinant_mul] at hm
  refine ⟨determinant_updateRow (left_ne_zero_of_mul hm) hc0 hdual hq, ?_⟩
  funext j
  rw [Matrix.updateRow_self, Matrix.mulVec_smul, Matrix.mulVec, dotProduct_smul]
  by_cases hj : j = k
  · rw [hj, Matrix.updateRow_self, Pi.single_eq_same, smul_dotProduct]
    exact hc
  · have hother := congrFun hdual j
    rw [Pi.single_eq_of_ne hj] at hother ⊢
    rw [Matrix.updateRow_ne hj, show W j ⬝ᵥ V.mulVec w = 0 from hother, smul_zero]

/-- The determinant with another row `k`: only its part along the projected row counts. -/
theorem Projected.determinant_updateRow (h : Projected W V k) (u : Vec2 K) :
    determinant (W.updateRow k u) = (u ⬝ᵥ V.mulVec (W k)) * determinant W := by
  have hinv : inverse W * W = 1 := mul_eq_one_comm.mp (mul_inverse h.demixing)
  -- `u` as a combination of the rows
  obtain ⟨a, rfl⟩ : ∃ a, Matrix.vecMul a W = u :=
    ⟨Matrix.vecMul u (inverse W), by rw [Matrix.vecMul_vecMul, hinv, Matrix.vecMul_one]⟩
  have hpart : Matrix.vecMul a W ⬝ᵥ V.mulVec (W k) = a k := by
    rw [← Matrix.dotProduct_mulVec, h.dual, dotProduct_single, mul_one]
  rw [hpart, determinant_eq_det, determinant_eq_det, Matrix.vecMul_eq_sum]
  exact Matrix.det_updateRow_sum W k a

theorem dotProduct_symm (hV : V.IsSymm) (u v : Vec2 K) :
    u ⬝ᵥ V.mulVec v = v ⬝ᵥ V.mulVec u := by
  rw [Matrix.dotProduct_mulVec, dotProduct_comm, ← Matrix.mulVec_transpose, hV.eq]

end Rows

section Best

variable {K : Type} [Field K] [LinearOrder K] [IsStrictOrderedRing K] {W V : Mat2 K}
  {k : Fin NUM_INPUTS}

/-- The inequality of Cauchy and Schwarz, for a vector of length 1. -/
theorem Positive.dotProduct_sq_le (hV : Positive V) (hsymm : V.IsSymm) {v : Vec2 K}
    (hv : v ⬝ᵥ V.mulVec v = 1) (u : Vec2 K) : (u ⬝ᵥ V.mulVec v) ^ 2 ≤ u ⬝ᵥ V.mulVec u := by
  set c := u ⬝ᵥ V.mulVec v with hc
  have hrest : (u - c • v) ⬝ᵥ V.mulVec (u - c • v) = u ⬝ᵥ V.mulVec u - c ^ 2 := by
    rw [Matrix.mulVec_sub, Matrix.mulVec_smul, sub_dotProduct, dotProduct_sub, dotProduct_sub,
      smul_dotProduct, smul_dotProduct, dotProduct_smul, dotProduct_smul, dotProduct_symm hsymm v u,
      hv, ← hc]
    simp only [smul_eq_mul]
    ring
  have hnonneg : 0 ≤ (u - c • v) ⬝ᵥ V.mulVec (u - c • v) := by
    by_cases h0 : u - c • v = 0
    · rw [h0, zero_dotProduct]
    · exact (hV _ h0).le
  rw [hrest] at hnonneg
  exact sub_nonneg.mp hnonneg

/-- Of all rows of a given length the projected one has the greatest determinant. -/
theorem Projected.determinant_sq_le (h : Projected W V k) (hV : Positive V) (hsymm : V.IsSymm)
    (u : Vec2 K) :
    determinant (W.updateRow k u) ^ 2 ≤ (u ⬝ᵥ V.mulVec u) * determinant W ^ 2 := by
  rw [h.determinant_updateRow, mul_pow]
  exact mul_le_mul_of_nonneg_right (hV.dotProduct_sq_le hsymm h.scaled u) (sq_nonneg _)

end Best

/-- The cost of a demixing matrix: the outputs, weighed by the covariances, are to be small, and the
matrix is not. -/
noncomputable def objective (W : Mat2 ℝ) (V : Fin NUM_INPUTS → Mat2 ℝ) : ℝ :=
  (∑ k, W k ⬝ᵥ (V k).mulVec (W k)) - Real.log (determinant W ^ 2)

theorem Projected.objective_le {W : Mat2 ℝ} {V : Fin NUM_INPUTS → Mat2 ℝ} {k : Fin NUM_INPUTS}
    (h : Projected W (V k) k) (hV : Positive (V k)) (hsymm : (V k).IsSymm) {u : Vec2 ℝ}
    (hu : determinant (W.updateRow k u) ≠ 0) : objective W V ≤ objective (W.updateRow k u) V := by
  have hle := h.determinant_sq_le hV hsymm u
  have hdet : 0 < determinant W ^ 2 := by
    have hne := h.demixing
    positivity
  have hnew : 0 < determinant (W.updateRow k u) ^ 2 := by positivity
  have hlength : 0 < u ⬝ᵥ (V k).mulVec u := pos_of_mul_pos_left (hnew.trans_le hle) hdet.le
  have hlog : Real.log (determinant (W.updateRow k u) ^ 2) ≤
      u ⬝ᵥ (V k).mulVec u - 1 + Real.log (determinant W ^ 2) := by
    calc Real.log (determinant (W.updateRow k u) ^ 2)
        ≤ Real.log ((u ⬝ᵥ (V k).mulVec u) * determinant W ^ 2) := Real.log_le_log hnew hle
      _ = Real.log (u ⬝ᵥ (V k).mulVec u) + Real.log (determinant W ^ 2) :=
        Real.log_mul hlength.ne' hdet.ne'
      _ ≤ _ := by
        have hsub := Real.log_le_sub_one_of_pos hlength
        linarith
  have hrest : ∑ j ∈ Finset.univ.erase k,
      (W.updateRow k u) j ⬝ᵥ (V j).mulVec ((W.updateRow k u) j) =
      ∑ j ∈ Finset.univ.erase k, W j ⬝ᵥ (V j).mulVec (W j) := by
    refine Finset.sum_congr rfl ?_
    intro j hj
    rw [Matrix.updateRow_ne (Finset.ne_of_mem_erase hj)]
  unfold objective
  rw [← Finset.add_sum_erase _ _ (Finset.mem_univ k),
    ← Finset.add_sum_erase _ _ (Finset.mem_univ k), hrest, Matrix.updateRow_self, h.scaled]
  linarith

/-! ## Passes -/

section Passes

variable {K : Type} [Field K] [LinearOrder K] {S : Sqrt K} {x : Fin FREQUENCY_BINS → Vec2 K}

theorem Sqrt.scale (S : Sqrt K) {z : K} (h : 0 < z) :
    (S.sqrt z)⁻¹ * ((S.sqrt z)⁻¹ * z) = 1 := by
  have hne := mt (S.eq_zero_iff h.le).mp h.ne'
  calc (S.sqrt z)⁻¹ * ((S.sqrt z)⁻¹ * z)
      = (S.sqrt z)⁻¹ * ((S.sqrt z)⁻¹ * (S.sqrt z * S.sqrt z)) := by rw [S.mul_self_sqrt z h.le]
    _ = 1 := by rw [inv_mul_cancel_left₀ hne, inv_mul_cancel₀ hne]

theorem update_bin_ok {k : Fin NUM_INPUTS} {r : K} {st st' : Statics K} {freq : Fin FREQUENCY_BINS}
    (h : update_bin S x k r st freq = .ok st') :
    ∃ V w, st' = { W := Function.update st.W freq ((st.W freq).updateRow k w)
                   V := Function.update st.V k (Function.update (st.V k) freq V) } ∧
      Projected ((st.W freq).updateRow k w) V k ∧ ((st.V k freq).IsSymm → V.IsSymm) := by
  unfold update_bin at h
  dsimp only at h
  split at h
  · cases h
  split at h
  · cases h
  split at h
  · cases h
  rename_i hm hnorm
  cases h
  refine ⟨_, _, rfl, projected_update hm rfl ?_, ?_⟩
  · exact S.scale (not_not.mp hnorm)
  · intro hsymm
    have hx : (Matrix.vecMulVec (x freq) (x freq)).IsSymm := by
      rw [Matrix.IsSymm, Matrix.transpose_vecMulVec]
    exact (hsymm.smul _).add ((hx.smul _).smul _)

theorem update_source_projected {st st' : Vec2 K × Statics K} {k : Fin NUM_INPUTS}
    (h : update_source S x st k = .ok st') (freq : Fin FREQUENCY_BINS) :
    Projected (st'.2.W freq) (st'.2.V k freq) k := by
  refine foldlM_each (D := fun freq a => Projected (a.W freq) (a.V k freq) k) ?_
    (update_source_ok h).2 freq (List.mem_finRange freq)
  intro a b a' hok
  obtain ⟨V, w, rfl, hnew, -⟩ := update_bin_ok hok
  simp only [Function.update_self]
  refine ⟨hnew, ?_⟩
  intro c hc
  by_cases hcb : c = b
  · subst hcb
    simp only [Function.update_self]
    exact hnew
  · simp only [Function.update_of_ne hcb]
    exact hc

theorem update_source_covariance {st st' : Vec2 K × Statics K} {k j : Fin NUM_INPUTS}
    (h : update_source S x st k = .ok st') (hj : j ≠ k) : st'.2.V j = st.2.V j := by
  refine foldlM_keeps (P := fun a => a.V j = st.2.V j) ?_ (update_source_ok h).2 rfl
  intro a b a' hok ha
  obtain ⟨V, w, rfl, -, -⟩ := update_bin_ok hok
  simp only [Function.update_of_ne hj]
  exact ha

def Symmetric (st : Statics K) : Prop := ∀ k freq, (st.V k freq).IsSymm

theorem update_source_symmetric {st st' : Vec2 K × Statics K} {k : Fin NUM_INPUTS}
    (h : update_source S x st k = .ok st') (hst : Symmetric st.2) : Symmetric st'.2 := by
  refine foldlM_keeps ?_ (update_source_ok h).2 hst
  intro a b a' hok ha j freq
  obtain ⟨V, w, rfl, -, hsymm⟩ := update_bin_ok hok
  by_cases hj : j = k
  · subst hj
    by_cases hf : freq = b
    · subst hf
      simp only [Function.update_self]
      exact hsymm (ha j freq)
    · simp only [Function.update_self, Function.update_of_ne hf]
      exact ha j freq
  · simp only [Function.update_of_ne hj]
    exact ha j freq

/-! ## Calls -/

/-- A call is four passes and, if not `setup`, the product of line 78. -/
theorem unmix_ok {setup : Bool} {st st' : Statics K} {y : Option (Fin FREQUENCY_BINS → Vec2 K)}
    (h : unmix S setup x st = .ok (st', y)) :
    (∃ r, [0, 1, 0, 1].foldlM (update_source S x) (fun _ => 0, st) = .ok (r, st')) ∧
      y = if setup then none else some fun freq => (st'.W freq).mulVec (x freq) := by
  obtain ⟨⟨r, statics⟩, hpasses, hreturn⟩ := bind_eq_ok h
  cases hreturn
  exact ⟨⟨r, hpasses⟩, rfl⟩

/-- The passes of a call, one after the other. -/
theorem unmix_eq (setup : Bool) (st : Statics K) :
    unmix S setup x st = (do
      let first ← update_source S x (fun _ => 0, st) 0
      let second ← update_source S x first 1
      let third ← update_source S x second 0
      let (_, statics) ← update_source S x third 1
      return (statics, if setup then none else some fun freq =>
        (statics.W freq).mulVec (x freq))) := by
  have hpasses : ((List.range UPDATES_PER_FRAME).flatMap fun _ => List.finRange NUM_INPUTS) =
      [0, 1, 0, 1] := rfl
  unfold unmix
  simp only [hpasses, List.foldlM_cons, List.foldlM_nil, bind_assoc, pure_bind]

/-- **A call.** Whatever the static variables were: after a call that meets no zero divisor, every
row has length 1 in its covariance, row 0 is orthogonal to row 1 in that of row 1, and the observed
vectors are the estimated ones, mixed by the inverses. -/
theorem unmix_projected {setup : Bool} {st st' : Statics K}
    {y : Option (Fin FREQUENCY_BINS → Vec2 K)} (h : unmix S setup x st = .ok (st', y))
    (freq : Fin FREQUENCY_BINS) :
    (∀ k, st'.W freq k ⬝ᵥ (st'.V k freq).mulVec (st'.W freq k) = 1) ∧
    st'.W freq 0 ⬝ᵥ (st'.V 1 freq).mulVec (st'.W freq 1) = 0 ∧
    determinant (st'.W freq) ≠ 0 ∧
    ∀ sources, y = some sources → (inverse (st'.W freq)).mulVec (sources freq) = x freq := by
  obtain ⟨⟨r, hpasses⟩, hy⟩ := unmix_ok h
  -- the last pass is for row 1, the pass before it for row 0
  obtain ⟨mid, hpasses, hlast⟩ := foldlM_concat (l := [0, 1, 0]) hpasses
  obtain ⟨mid', -, hzero⟩ := foldlM_concat (l := [0, 1]) hpasses
  have hproj := update_source_projected hlast freq
  refine ⟨?_, hproj.orthogonal (by decide), hproj.demixing, ?_⟩
  · intro k
    match k with
    | 0 =>
      rw [update_source_row hlast (by decide) freq, update_source_covariance hlast (by decide)]
      exact (update_source_projected hzero freq).scaled
    | 1 => exact hproj.scaled
  · intro sources hsources
    rw [hy] at hsources
    split at hsources
    · cases hsources
    · cases hsources
      rw [Matrix.mulVec_mulVec, mul_eq_one_comm.mp (mul_inverse hproj.demixing), Matrix.one_mulVec]

end Passes

/-! ## Runs -/

section Runs

variable {K : Type} [Field K] [LinearOrder K]

/-- Some bin of the frame contributes to `r_k[k]`. -/
def Heard (x : Fin FREQUENCY_BINS → Vec2 K) (W : Fin FREQUENCY_BINS → Mat2 K)
    (k : Fin NUM_INPUTS) : Prop :=
  ∃ freq, W freq k ⬝ᵥ x freq ≠ 0

variable [IsStrictOrderedRing K] {S : Sqrt K} {x : Fin FREQUENCY_BINS → Vec2 K}

theorem update_source_unheard {st : Vec2 K × Statics K} {k : Fin NUM_INPUTS} (hr : st.1 k = 0)
    (h : ¬ Heard x st.2.W k) : update_source S x st k = .error (.line60 k 0) := by
  have h0 : divisor S x st k = 0 := by
    rw [divisor, hr]
    exact not_not.mp (mt (unmix_first_divisor S x st.2.W k).mp h)
  have hfail : update_bin S x k (divisor S x st k) st.2 0 = .error (.line60 k 0) := if_pos h0
  unfold update_source
  rw [← divisor]
  simp only [List.finRange_succ, List.foldlM_cons, hfail]
  rfl

/-- A source that was heard once is divided by something in all passes that follow. -/
theorem update_source_again {st : Vec2 K × Statics K} {k : Fin NUM_INPUTS} (h : Regular st.2)
    (hr : 0 < st.1 k) : ∃ st', update_source S x st k = .ok st' ∧ Regular st'.2 := by
  have hsum : 0 < accumulate x st.2.W k (st.1 k) := by
    rw [accumulate_eq]
    exact add_pos_of_pos_of_nonneg hr (List.sum_nonneg (squares_nonneg x st.2.W k))
  have hpos : 0 < divisor S x st k :=
    lt_of_le_of_ne (S.sqrt_nonneg _ hsum.le) (Ne.symm (mt (S.eq_zero_iff hsum.le).mp hsum.ne'))
  have hbin : ∀ (a : Statics K) (b : Fin FREQUENCY_BINS), Regular a →
      Ends Regular (fun _ => False) (update_bin S x k (divisor S x st k) a b) := by
    intro a b ha
    obtain ⟨a', hok, ha'⟩ := update_bin_regular S x k hpos ha b
    exact .inl ⟨a', hok, ha'⟩
  rcases Ends.foldlM hbin (List.finRange FREQUENCY_BINS) h with ⟨a, hok, ha⟩ | ⟨_, _, hfalse⟩
  · refine ⟨(Function.update st.1 k (divisor S x st k), a), ?_, ha⟩
    unfold update_source
    rw [← divisor]
    simp only [hok]
    rfl
  · exact hfalse.elim

/-- The first pass, and what it leaves for the second. -/
theorem first_pass {st : Statics K} (h : Regular st) (h0 : Heard x st.W 0) :
    ∃ first, update_source S x (fun _ => 0, st) 0 = .ok first ∧ Regular first.2 ∧
      first.1 1 = 0 ∧ (Heard x first.2.W 1 ↔ Heard x st.W 1) := by
  obtain ⟨freq, hfreq⟩ := h0
  obtain ⟨first, hok, hreg⟩ := update_source_heard S h
    (show ((fun _ => 0, st) : Vec2 K × Statics K).1 0 = 0 from rfl) hfreq
  refine ⟨first, hok, hreg, ?_, ?_⟩
  · rw [(update_source_ok hok).1, Function.update_of_ne (by decide)]
  · simp only [Heard, update_source_row hok (show (1 : Fin NUM_INPUTS) ≠ 0 by decide)]

theorem unmix_stops (setup : Bool) {st : Statics K} (h : Regular st) {k : Fin NUM_INPUTS}
    (hk : ¬ Heard x st.W k) (hbefore : ∀ j < k, Heard x st.W j) :
    unmix S setup x st = .error (.line60 k 0) := by
  rw [unmix_eq]
  match k with
  | 0 =>
    rw [update_source_unheard rfl hk]
    rfl
  | 1 =>
    obtain ⟨first, hok, -, hr, hheard⟩ := first_pass (S := S) h (hbefore 0 (by decide))
    have hfail := update_source_unheard (S := S) hr (mt hheard.mp hk)
    simp only [hok, hfail, bind, Except.bind]

theorem unmix_returns (setup : Bool) {st : Statics K} (h : Regular st)
    (hheard : ∀ k, Heard x st.W k) : ∃ result, unmix S setup x st = .ok result := by
  rw [unmix_eq]
  obtain ⟨first, hok₁, hreg₁, hr, hheard₁⟩ := first_pass (S := S) h (hheard 0)
  obtain ⟨freq, hfreq⟩ := hheard₁.mpr (hheard 1)
  obtain ⟨second, hok₂, hreg₂⟩ := update_source_heard S hreg₁ hr hfreq
  -- from here on the auxiliary variables are positive
  have hpasses : [0, 1].foldlM (update_source S x) (fun _ => 0, st) = .ok second := by
    simp only [List.foldlM_cons, List.foldlM_nil, hok₁, hok₂, bind, Except.bind]
    rfl
  have hpos : ∀ j, 0 < second.1 j := by
    intro j
    refine lt_of_le_of_ne (passes_nonneg hpasses (fun _ => le_rfl) j) (Ne.symm ?_)
    rw [ne_eq, passes_divisors hpasses j]
    exact fun hj => hj.2 (by match j with | 0 => decide | 1 => decide)
  obtain ⟨third, hok₃, hreg₃⟩ := update_source_again (S := S) (x := x) hreg₂ (hpos 0)
  have hr₃ : 0 < third.1 1 := by
    rw [(update_source_ok hok₃).1, Function.update_of_ne (by decide)]
    exact hpos 1
  obtain ⟨fourth, hok₄, -⟩ := update_source_again (S := S) (x := x) hreg₃ hr₃
  simp only [hok₁, hok₂, hok₃, hok₄, bind, Except.bind]
  exact ⟨_, rfl⟩

/-- The first source that a frame does not contain, for the demixing matrices `W`. -/
structure Missing (x : Fin FREQUENCY_BINS → Vec2 K) (W : Fin FREQUENCY_BINS → Mat2 K)
    (k : Fin NUM_INPUTS) : Prop where
  unheard : ¬ Heard x W k
  first : ∀ j < k, Heard x W j

theorem unmix_error_iff (setup : Bool) {st : Statics K} (h : Regular st) {e : ZeroDivisor} :
    unmix S setup x st = .error e ↔ ∃ k, Missing x st.W k ∧ e = .line60 k 0 := by
  constructor
  · intro hfail
    by_cases hheard : ∀ k, Heard x st.W k
    · obtain ⟨result, hok⟩ := unmix_returns (S := S) setup h hheard
      cases hfail.symm.trans hok
    · obtain ⟨k, hk, hmin⟩ := (wellFounded_lt (α := Fin NUM_INPUTS)).has_min
        {k | ¬ Heard x st.W k} (not_forall.mp hheard)
      have hfirst : ∀ j < k, Heard x st.W j := fun j hj => not_not.mp fun hn => hmin j hn hj
      cases hfail.symm.trans (unmix_stops setup h hk hfirst)
      exact ⟨k, ⟨hk, hfirst⟩, rfl⟩
  · rintro ⟨k, hk, rfl⟩
    exact unmix_stops setup h hk.unheard hk.first

/-- **Where a run stops.** From regular static variables, such as identity matrices, a run meets a
zero divisor if and only if it comes to a frame in which one of the sources is heard in no bin by
its row of `W`; the divisor is that of line 60 for the first such source. -/
theorem unmix_run_error_iff {frames : List (Bool × (Fin FREQUENCY_BINS → Vec2 K))}
    {st : Statics K} (h : Regular st) {e : ZeroDivisor} :
    unmix_run S frames st = .error e ↔
      ∃ first frame rest st' k, frames = first ++ frame :: rest ∧
        unmix_run S first st = .ok st' ∧ Missing frame.2 st'.W k ∧ e = .line60 k 0 := by
  induction frames generalizing st with
  | nil =>
    refine ⟨nofun, ?_⟩
    rintro ⟨first, frame, rest, _, _, hnil, -⟩
    cases first <;> cases hnil
  | cons frame frames ih =>
    obtain ⟨setup, x⟩ := frame
    cases hcall : unmix S setup x st with
    | error e' =>
      have hrun : ∀ more, unmix_run S ((setup, x) :: more) st = .error e' := by
        intro more
        rw [unmix_run, hcall]
        rfl
      rw [hrun, Except.error.injEq]
      constructor
      · rintro rfl
        obtain ⟨k, hk, rfl⟩ := (unmix_error_iff setup h).mp hcall
        exact ⟨[], (setup, x), frames, st, k, rfl, rfl, hk, rfl⟩
      · rintro ⟨first, frame, rest, st', k, hframes, hok, hk, rfl⟩
        cases first with
        | nil =>
          cases hframes
          cases hok
          have hfail := (unmix_error_iff (S := S) setup h).mpr ⟨k, hk, rfl⟩
          cases hcall.symm.trans hfail
          rfl
        | cons frame first =>
          cases hframes
          cases (hrun first).symm.trans hok
    | ok result =>
      have hends := unmix_regular S setup x h
      rw [hcall] at hends
      have hreg := hends.of_ok
      have hrun : ∀ more, unmix_run S ((setup, x) :: more) st = unmix_run S more result.1 := by
        intro more
        rw [unmix_run, hcall]
        rfl
      rw [hrun, ih hreg]
      constructor
      · rintro ⟨first, frame, rest, st', k, rfl, hok, hk⟩
        exact ⟨(setup, x) :: first, frame, rest, st', k, rfl, (hrun first).trans hok, hk⟩
      · rintro ⟨first, frame, rest, st', k, hframes, hok, hk, rfl⟩
        cases first with
        | nil =>
          cases hframes
          cases hok
          have hfail := (unmix_error_iff (S := S) setup h).mpr ⟨k, hk, rfl⟩
          cases hcall.symm.trans hfail
        | cons frame first =>
          cases hframes
          exact ⟨first, _, rest, st', k, rfl, (hrun first).symm.trans hok, hk, rfl⟩

end Runs

/-! ## The objective -/

section Minimal

variable {S : Sqrt ℝ} {x : Fin FREQUENCY_BINS → Vec2 ℝ}

def covariances (st : Statics ℝ) (freq : Fin FREQUENCY_BINS) : Fin NUM_INPUTS → Mat2 ℝ :=
  fun k => st.V k freq

theorem unmix_run_symmetric {frames : List (Bool × (Fin FREQUENCY_BINS → Vec2 ℝ))}
    {start statics : Statics ℝ} (h : unmix_run S frames start = .ok statics)
    (hstart : Symmetric start) : Symmetric statics := by
  induction frames generalizing start with
  | nil =>
    cases h
    exact hstart
  | cons frame frames ih =>
    obtain ⟨⟨st, y⟩, hcall, hrest⟩ := bind_eq_ok h
    obtain ⟨⟨r, hpasses⟩, -⟩ := unmix_ok hcall
    refine ih hrest ?_
    exact foldlM_keeps (P := fun a => Symmetric a.2)
      (fun _ _ _ hok => update_source_symmetric hok) hpasses hstart

theorem passes_regular {ks : List (Fin NUM_INPUTS)} {statics : Statics ℝ} {st : Vec2 ℝ × Statics ℝ}
    (h : ks.foldlM (update_source S x) (fun _ => 0, statics) = .ok st) (hreg : Regular statics)
    (hsymm : Symmetric statics) : (∀ j, 0 ≤ st.1 j) ∧ Regular st.2 ∧ Symmetric st.2 := by
  have hends := Ends.foldlM (update_source_regular S x) ks
    (a := (fun _ => 0, statics)) ⟨fun _ => le_rfl, hreg⟩
  rw [h] at hends
  obtain ⟨hr, hreg⟩ := hends.of_ok
  exact ⟨hr, hreg, foldlM_keeps (P := fun a => Symmetric a.2)
    (fun _ _ _ hok => update_source_symmetric hok) h hsymm⟩

end Minimal

/-! ## From identity matrices -/

theorem heard_both_sided (k : Fin NUM_INPUTS) : Heard both_sided identities.2.W k :=
  ⟨0, identities_hear k⟩

theorem unmix_projected_both_sided : ∃ st sources,
    unmix real_sqrt false both_sided identities.2 = .ok (st, some sources) ∧
    (∀ k, st.W 0 k ⬝ᵥ (st.V k 0).mulVec (st.W 0 k) = 1) ∧
    st.W 0 0 ⬝ᵥ (st.V 1 0).mulVec (st.W 0 1) = 0 ∧ determinant (st.W 0) ≠ 0 ∧
    (inverse (st.W 0)).mulVec (sources 0) = both_sided 0 := by
  obtain ⟨⟨st, y⟩, hok⟩ := unmix_returns (S := real_sqrt) false
    (regular_identity : Regular identities.2) heard_both_sided
  obtain rfl := (unmix_ok hok).2
  obtain ⟨hlength, horth, hdet, hmixed⟩ := unmix_projected hok 0
  exact ⟨st, _, hok, hlength, horth, hdet, hmixed _ rfl⟩

theorem unmix_run_error_iff_one_sided :
    unmix_run real_sqrt [(true, one_sided)] identities.2 = .error (.line60 1 0) := by
  refine (unmix_run_error_iff regular_identity).mpr ⟨[], (true, one_sided), [], identities.2, 1,
    rfl, rfl, ⟨?_, ?_⟩, rfl⟩
  · rintro ⟨freq, hfreq⟩
    refine hfreq ?_
    simp [identities, one_sided, dotProduct, Matrix.one_apply]
  · intro j hj
    obtain rfl : j = 0 := Fin.lt_one_iff j |>.mp hj
    exact ⟨0, by simp [identities, one_sided, dotProduct, Matrix.one_apply]⟩

end AuxIVA
end SoundScreen
