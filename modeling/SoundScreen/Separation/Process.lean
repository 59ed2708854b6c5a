import Mathlib.Algebra.Order.Field.Basic
import SoundScreen.Separation.Model

/-!
# SoundScreen.Separation.Process

One pass of the loop of `process` in `music-source-separation-py3/desktop_eval.py`, from the
spectrogram to the two masked magnitudes, in exact arithmetic. The complex numbers of the
spectrogram, `np.abs` and `np.angle` on them, and the network are parameters.

* `soft_mask_bounds`: the soft mask of two numbers is between 0 and 1.
* `process_ok`: the crops, the masks and the masked magnitudes, element by element.
* `process_splits`: the two masked magnitudes are parts of the mixture and add up to it.
-/

namespace SoundScreen
namespace Separation

open Array3

structure EvalConfig where
  NUM_EVAL : Nat
  NUM_EVAL_pos : 0 < NUM_EVAL

/-- The value in `config.py`. -/
def evalConfig : EvalConfig := ⟨1, by decide⟩

/-- `sess.run(model(), feed_dict={model.x_mixed: batch})`: two arrays of the batch's shape. -/
structure Net (K : Type) where
  run : Array3 K → Array3 K × Array3 K
  shape_src1 : ∀ x, (run x).1.shape = x.shape
  shape_src2 : ∀ x, (run x).2.shape = x.shape

/-- The locals of `process` at the end of a pass; `est` are the predictions before masking. -/
structure Separated (K : Type) where
  mixed_mag : Array3 K
  est_src1_mag : Array3 K
  est_src2_mag : Array3 K
  mask_src1 : Array3 K
  mask_src2 : Array3 K
  pred_src1_mag : Array3 K
  pred_src2_mag : Array3 K

section

variable {C K : Type} [Field K] [LinearOrder K]

def get_magnitude (cabs : C → K) (stft_matrixes : Array3 C) : Array3 K := stft_matrixes.map cabs

def get_phase (angle : C → K) (stft_matrixes : Array3 C) : Array3 K := stft_matrixes.map angle

def soft_time_freq_mask (eps : K) (target_src remaining_src : Array3 K) :
    Except PyError (Array3 K) := do
  let target := target_src.map fun x => |x|
  let sum ← target.broadcast (remaining_src.map fun x => |x|)
  target.divide (sum.map fun p => p.1 + p.2 + eps)

def process (config : ModelConfig) (eval_config : EvalConfig) (eps : K) (cabs angle : C → K)
    (model : Net K) (mixed_spec : Array3 C) : Except PyError (Separated K) := do
  let mixed_mag := get_magnitude cabs mixed_spec
  let (mixed_batch, padded_mixed_mag) ← spec_to_batch config mixed_mag
  let mixed_phase := get_phase angle mixed_spec
  if ← (← batch_to_spec mixed_batch eval_config.NUM_EVAL).allEqual padded_mixed_mag then
    let pred := model.run mixed_batch
    let seq_len := mixed_phase.d2
    let est_src1_mag := (← batch_to_spec pred.1 eval_config.NUM_EVAL).cropLast seq_len
    let est_src2_mag := (← batch_to_spec pred.2 eval_config.NUM_EVAL).cropLast seq_len
    let mask_src1 ← soft_time_freq_mask eps est_src1_mag est_src2_mag
    let mask_src2 := mask_src1.map fun x => 1 - x
    let pred_src1_mag ← mixed_mag.multiply mask_src1
    let pred_src2_mag ← mixed_mag.multiply mask_src2
    return ⟨mixed_mag, est_src1_mag, est_src2_mag, mask_src1, mask_src2, pred_src1_mag,
      pred_src2_mag⟩
  else
    .error .AssertionError

end

section Mask

variable {K : Type} [Field K] [LinearOrder K] [IsStrictOrderedRing K]

/-- The mask of one element. -/
def soft_mask (eps t r : K) : K := |t| / (|t| + |r| + eps)

theorem soft_mask_divisor {eps : K} (h : 0 < eps) (t r : K) : 0 < |t| + |r| + eps :=
  add_pos_of_nonneg_of_pos (add_nonneg (abs_nonneg t) (abs_nonneg r)) h

theorem soft_mask_bounds {eps : K} (h : 0 < eps) (t r : K) :
    0 ≤ soft_mask eps t r ∧ soft_mask eps t r ≤ 1 := by
  have hpos := soft_mask_divisor h t r
  have hr := abs_nonneg r
  constructor
  · exact div_nonneg (abs_nonneg t) hpos.le
  · rw [soft_mask, div_le_one hpos]
    linarith

/-- A part of a magnitude, and what is left of it. -/
theorem split_bounds {m x : K} (hm : 0 ≤ m) (hx : 0 ≤ x ∧ x ≤ 1) :
    (0 ≤ m * x ∧ m * x ≤ m) ∧ (0 ≤ m * (1 - x) ∧ m * (1 - x) ≤ m) ∧ m * x + m * (1 - x) = m := by
  have h₀ : 0 ≤ m * x := mul_nonneg hm hx.1
  have h₁ : 0 ≤ m * (1 - x) := mul_nonneg hm (sub_nonneg.mpr hx.2)
  have hsum : m * x + m * (1 - x) = m := by ring
  exact ⟨⟨h₀, by linarith⟩, ⟨h₁, by linarith⟩, hsum⟩

theorem soft_time_freq_mask_ofFn {eps : K} (h : 0 < eps) {d0 d1 d2 : Nat}
    (u v : Fin d0 → Fin d1 → Fin d2 → K) :
    soft_time_freq_mask eps (ofFn d0 d1 d2 u) (ofFn d0 d1 d2 v) =
      .ok (ofFn d0 d1 d2 fun i j k => soft_mask eps (u i j k) (v i j k)) := by
  have hne : ∀ i j k, |u i j k| + |v i j k| + eps ≠ 0 :=
    fun i j k => (soft_mask_divisor h (u i j k) (v i j k)).ne'
  simp only [soft_time_freq_mask, map_ofFn, broadcast_ofFn, bind, Except.bind, divide_ofFn _ hne]
  rfl

end Mask

/-! ## The pass -/

/-- The crop undoes the padding of whatever the network returns for the batch. -/
theorem est_shape {K : Type} [Zero K] (config : ModelConfig) {mag y : Array3 K}
    (hw : 0 < mag.d0) (hf : 0 < mag.d1) (hy : y.shape = (batchOf config mag).shape) :
    ∃ spec, batch_to_spec y mag.d0 = .ok spec ∧ (spec.cropLast mag.d2).shape = mag.shape := by
  obtain ⟨y0, y1, y2, data, hdata⟩ := y
  simp only [shape, batchOf, reshape, Prod.mk.injEq] at hy
  obtain ⟨rfl, rfl, rfl⟩ := hy
  have hsize : mag.d0 * entries config mag.d2 * config.SEQ_LEN * mag.d1 =
      mag.d0 * (entries config mag.d2 * config.SEQ_LEN) * mag.d1 := by ring
  have hle : mag.d2 ≤ entries config mag.d2 * config.SEQ_LEN := by
    have := add_pad_len config mag.d2
    omega
  refine ⟨_, batch_to_spec_eq hsize hw hf, ?_⟩
  simp only [shape, cropLast, transpose, reshape, ofFn, min_eq_left hle]

section Pass

variable {C K : Type} [Field K] [LinearOrder K] [IsStrictOrderedRing K]
variable (config : ModelConfig) (eval_config : EvalConfig) {eps : K} (cabs angle : C → K)
variable (model : Net K) {mixed_spec : Array3 C}

/-- Every array of the pass has the shape of the spectrogram; element by element it is what the
formulas of `process` say. -/
theorem process_ok {d0 d1 d2 : Nat} {mag : Fin d0 → Fin d1 → Fin d2 → K} (heps : 0 < eps)
    (hmag : get_magnitude cabs mixed_spec = ofFn d0 d1 d2 mag)
    (hw : d0 = eval_config.NUM_EVAL) (hf : 0 < d1) :
    ∃ u v, process config eval_config eps cabs angle model mixed_spec = .ok
      { mixed_mag := ofFn d0 d1 d2 mag
        est_src1_mag := ofFn d0 d1 d2 u
        est_src2_mag := ofFn d0 d1 d2 v
        mask_src1 := ofFn d0 d1 d2 fun i j k => soft_mask eps (u i j k) (v i j k)
        mask_src2 := ofFn d0 d1 d2 fun i j k => 1 - soft_mask eps (u i j k) (v i j k)
        pred_src1_mag := ofFn d0 d1 d2 fun i j k => mag i j k * soft_mask eps (u i j k) (v i j k)
        pred_src2_mag := ofFn d0 d1 d2 fun i j k =>
          mag i j k * (1 - soft_mask eps (u i j k) (v i j k)) } := by
  have hpos : 0 < d0 := hw ▸ eval_config.NUM_EVAL_pos
  have hbatch := spec_to_batch_ok config (show 0 < (ofFn d0 d1 d2 mag).d1 from hf)
  have hback : batch_to_spec (batchOf config (ofFn d0 d1 d2 mag)) d0 =
      .ok (padded config (ofFn d0 d1 d2 mag)) := batch_to_spec_ok config hpos hf
  have hest : ∀ y : Array3 K, y.shape = (batchOf config (ofFn d0 d1 d2 mag)).shape →
      ∃ e u, batch_to_spec y d0 = .ok e ∧ e.cropLast d2 = ofFn d0 d1 d2 u := by
    intro y hy
    obtain ⟨e, he, hs⟩ :=
      est_shape config (show 0 < (ofFn d0 d1 d2 mag).d0 from hpos) hf hy
    obtain ⟨u, hu⟩ := exists_ofFn hs
    exact ⟨e, u, he, hu⟩
  obtain ⟨e1, u, he1, hu⟩ := hest _ (model.shape_src1 _)
  obtain ⟨e2, v, he2, hv⟩ := hest _ (model.shape_src2 _)
  have hlen : (get_phase angle mixed_spec).d2 = d2 := by
    show (get_magnitude cabs mixed_spec).d2 = d2
    rw [hmag]
    rfl
  refine ⟨u, v, ?_⟩
  simp only [process, hmag, hbatch, ← hw, hback, allEqual_self, he1, he2, hlen, hu, hv,
    soft_time_freq_mask_ofFn heps, map_ofFn, multiply_ofFn, bind, Except.bind, if_true]
  rfl

/-- **The separation splits the mixture.** For every network, every frame count and every
spectrogram of `NUM_EVAL` waves with a frequency bin, a pass divides by no zero, all its arrays
have the shape of the mixture, and the two masked magnitudes are non-negative parts of it that
add up to it (`process_ok` has their formulas). -/
theorem process_splits (heps : 0 < eps) (habs : ∀ z, 0 ≤ cabs z)
    (hw : mixed_spec.d0 = eval_config.NUM_EVAL) (hf : 0 < mixed_spec.d1) :
    ∃ r, process config eval_config eps cabs angle model mixed_spec = .ok r ∧
      r.mixed_mag = get_magnitude cabs mixed_spec ∧
      r.est_src1_mag.shape = r.mixed_mag.shape ∧ r.est_src2_mag.shape = r.mixed_mag.shape ∧
      r.mask_src1.shape = r.mixed_mag.shape ∧ r.mask_src2.shape = r.mixed_mag.shape ∧
      r.pred_src1_mag.shape = r.mixed_mag.shape ∧ r.pred_src2_mag.shape = r.mixed_mag.shape ∧
      ∀ w f t m, r.mixed_mag.get? w f t = some m → ∃ x y,
        r.pred_src1_mag.get? w f t = some x ∧ r.pred_src2_mag.get? w f t = some y ∧
        (0 ≤ x ∧ x ≤ m) ∧ (0 ≤ y ∧ y ≤ m) ∧ x + y = m := by
  obtain ⟨mag, hmag⟩ := exists_ofFn (show (get_magnitude cabs mixed_spec).shape =
    (mixed_spec.d0, mixed_spec.d1, mixed_spec.d2) from rfl)
  have hnonneg : ∀ i j k, 0 ≤ mag i j k := by
    intro i j k
    have hmem := (mem_ofFn mag).mpr ⟨i, j, k, rfl⟩
    rw [← hmag] at hmem
    obtain ⟨z, -, hz⟩ := List.mem_map.mp hmem
    rw [← hz]
    exact habs z
  obtain ⟨u, v, hok⟩ := process_ok config eval_config cabs angle model heps hmag hw hf
  refine ⟨_, hok, hmag.symm, rfl, rfl, rfl, rfl, rfl, rfl, ?_⟩
  intro w f t m hm
  obtain ⟨hw', hf', ht⟩ := get?_isSome hm
  rw [get?_ofFn mag hw' hf' ht] at hm
  cases hm
  exact ⟨_, _, get?_ofFn _ hw' hf' ht, get?_ofFn _ hw' hf' ht,
    split_bounds (hnonneg _ _ _) (soft_mask_bounds heps _ _)⟩

end Pass

/-- A network that gives the whole batch to the first source and its negative to the second. -/
def mirror : Net ℚ := ⟨fun x => (x, x.map (- ·)), fun _ => rfl, fun _ => rfl⟩

/-- Three frames of one wave, through batches of four. -/
theorem process_splits_mirror :
    ∃ r, process modelConfig evalConfig 1 (|·|) id mirror (⟨1, 1, 3, [3, -1, 0], rfl⟩ : Array3 ℚ) =
      .ok r ∧ ∀ w f t m, r.mixed_mag.get? w f t = some m → ∃ x y,
        r.pred_src1_mag.get? w f t = some x ∧ r.pred_src2_mag.get? w f t = some y ∧
        (0 ≤ x ∧ x ≤ m) ∧ (0 ≤ y ∧ y ≤ m) ∧ x + y = m := by
  obtain ⟨r, hr, -, -, -, -, -, -, -, hsplit⟩ := process_splits modelConfig evalConfig
    (|·|) id mirror (show (0 : ℚ) < 1 from one_pos) (fun z => abs_nonneg z)
    (show (⟨1, 1, 3, [3, -1, 0], rfl⟩ : Array3 ℚ).d0 = 1 from rfl) Nat.one_pos
  exact ⟨r, hr, hsplit⟩

end Separation
end SoundScreen
