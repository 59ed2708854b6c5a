import SoundScreen.Numpy

/-!
# SoundScreen.Separation.Model

`music-source-separation-py3/model.py` (and the same text under `real_time_audio/ml_rt`): the
cutting of spectrograms into batch entries of `SEQ_LEN` frames, and back.

* `spec_to_batch_ok`: the batch is the padded and transposed spectrogram under another shape.
* `batch_entry`: row `l` of entry `b` is frame `b % m * SEQ_LEN + l` of wave `b / m`.
* `spec_to_batch_inverse`: `spec_to_batch` and `batch_to_spec` are inverse, both ways.
-/

namespace SoundScreen
namespace Separation

open Array3

structure ModelConfig where
  SEQ_LEN : Nat
  SEQ_LEN_pos : 0 < SEQ_LEN

/-- The value in `config.py`. -/
def modelConfig : ModelConfig := ⟨4, by decide⟩

variable {α : Type}

def pad_len (config : ModelConfig) (n_frames : Nat) : Nat :=
  if n_frames % config.SEQ_LEN > 0 then config.SEQ_LEN - n_frames % config.SEQ_LEN else 0

/-- The batch and `padded_src`. -/
def spec_to_batch [Zero α] (config : ModelConfig) (src : Array3 α) :
    Except PyError (Array3 α × Array3 α) := do
  let freq := src.d1
  let n_frames := src.d2
  let padded_src := src.padLast (pad_len config n_frames) 0
  if padded_src.d2 % config.SEQ_LEN = 0 then
    let batch ← padded_src.transpose.reshapeFirst config.SEQ_LEN freq
    return (batch, padded_src)
  else
    .error .AssertionError

def batch_to_spec (src : Array3 α) (num_wav : Nat) : Except PyError (Array3 α) := do
  let freq := src.d2
  let src ← src.reshapeMiddle num_wav freq
  return src.transpose

/-! ## Padding -/

section Padding

variable (config : ModelConfig)

/-- The number of batch entries a wave of `n_frames` frames is cut into. -/
def entries (n_frames : Nat) : Nat :=
  n_frames / config.SEQ_LEN + if n_frames % config.SEQ_LEN > 0 then 1 else 0

theorem add_pad_len (n_frames : Nat) :
    n_frames + pad_len config n_frames = entries config n_frames * config.SEQ_LEN := by
  have hdiv := Nat.div_add_mod' n_frames config.SEQ_LEN
  have hlt := Nat.mod_lt n_frames config.SEQ_LEN_pos
  by_cases h : n_frames % config.SEQ_LEN > 0
  · rw [pad_len, entries, if_pos h, if_pos h, Nat.add_mul, Nat.one_mul]
    omega
  · rw [pad_len, entries, if_neg h, if_neg h, Nat.add_zero, Nat.add_zero]
    omega

/-- It is the least one that holds all frames. -/
theorem entries_le {n_frames m : Nat} (h : n_frames ≤ m * config.SEQ_LEN) :
    entries config n_frames ≤ m := by
  have hdiv := Nat.div_add_mod' n_frames config.SEQ_LEN
  by_cases hr : n_frames % config.SEQ_LEN > 0
  · rw [entries, if_pos hr]
    by_contra hm
    have hle : m * config.SEQ_LEN ≤ n_frames / config.SEQ_LEN * config.SEQ_LEN :=
      Nat.mul_le_mul_right _ (by omega)
    omega
  · rw [entries, if_neg hr, Nat.add_zero]
    exact Nat.div_le_of_le_mul (by rw [Nat.mul_comm]; exact h)

theorem entries_mul (m : Nat) : entries config (m * config.SEQ_LEN) = m := by
  rw [entries, Nat.mul_mod_left, if_neg (Nat.lt_irrefl 0), Nat.add_zero,
    Nat.mul_div_cancel m config.SEQ_LEN_pos]

theorem pad_len_mul (m : Nat) : pad_len config (m * config.SEQ_LEN) = 0 := by
  rw [pad_len, Nat.mul_mod_left, if_neg (Nat.lt_irrefl 0)]

end Padding

/-! ## `spec_to_batch` and `batch_to_spec` -/

theorem batch_to_spec_eq {batch : Array3 α} {num_wavs frames : Nat}
    (h : batch.d0 * batch.d1 * batch.d2 = num_wavs * frames * batch.d2) (hw : 0 < num_wavs)
    (hf : 0 < batch.d2) : batch_to_spec batch num_wavs =
      .ok (batch.reshape num_wavs frames batch.d2 h).transpose := by
  simp only [batch_to_spec, reshapeMiddle_ok h (Nat.mul_pos hw hf), bind, Except.bind]
  rfl

section Batches

variable [Zero α] (config : ModelConfig)

/-- `padded_src`. -/
def padded (src : Array3 α) : Array3 α := src.padLast (pad_len config src.d2) 0

/-- The sizes agree: `(num_wavs, frames, freq)` is `(entries, SEQ_LEN, freq)`. -/
theorem batch_size (src : Array3 α) : (padded config src).transpose.d0 *
    (padded config src).transpose.d1 * (padded config src).transpose.d2 =
      src.d0 * entries config src.d2 * config.SEQ_LEN * src.d1 := by
  have h := add_pad_len config src.d2
  simp only [padded, transpose, padLast, ofFn, h]
  ring

/-- The batch of a spectrogram. -/
def batchOf (src : Array3 α) : Array3 α :=
  (padded config src).transpose.reshape (src.d0 * entries config src.d2) config.SEQ_LEN src.d1
    (batch_size config src)

theorem spec_to_batch_ok {src : Array3 α} (hf : 0 < src.d1) :
    spec_to_batch config src = .ok (batchOf config src, padded config src) := by
  have hmod : (src.padLast (pad_len config src.d2) 0).d2 % config.SEQ_LEN = 0 := by
    have h := add_pad_len config src.d2
    simp only [padLast, ofFn, h, Nat.mul_mod_left]
  have hreshape := reshapeFirst_ok (batch_size config src) (Nat.mul_pos config.SEQ_LEN_pos hf)
  simp only [padded] at hreshape
  simp only [spec_to_batch, if_pos hmod, hreshape, bind, Except.bind]
  rfl

/-- Row `l` of batch entry `b` is one frame of one wave. -/
theorem batch_entry {src : Array3 α} {b l f : Nat}
    (hb : b < src.d0 * entries config src.d2) (hl : l < config.SEQ_LEN) (hf : f < src.d1) :
    (batchOf config src).get? b l f = (padded config src).get? (b / entries config src.d2) f
      (b % entries config src.d2 * config.SEQ_LEN + l) := by
  have hm : 0 < entries config src.d2 := Nat.pos_of_mul_pos_left (Nat.zero_lt_of_lt hb)
  have hw : b / entries config src.d2 < src.d0 := Nat.div_lt_of_lt_mul (by rwa [Nat.mul_comm])
  have ht : b % entries config src.d2 * config.SEQ_LEN + l < (padded config src).d2 := by
    have hle : (b % entries config src.d2 + 1) * config.SEQ_LEN ≤
        entries config src.d2 * config.SEQ_LEN :=
      Nat.mul_le_mul_right _ (Nat.mod_lt b hm)
    have h := add_pad_len config src.d2
    rw [Nat.add_mul, Nat.one_mul] at hle
    simp only [padded, padLast, ofFn]
    omega
  have hdim : (padded config src).d2 = entries config src.d2 * config.SEQ_LEN :=
    add_pad_len config src.d2
  have hindex : (b / entries config src.d2 * (padded config src).d2 +
      (b % entries config src.d2 * config.SEQ_LEN + l)) * src.d1 + f =
        (b * config.SEQ_LEN + l) * src.d1 + f := by
    rw [hdim]
    conv_rhs => rw [← Nat.div_add_mod' b (entries config src.d2)]
    ring
  rw [← get?_transpose (padded config src),
    get?_eq_data (a := (padded config src).transpose) hw ht hf,
    get?_eq_data (a := batchOf config src) hb hl hf]
  exact congrArg ((padded config src).transpose.data[·]?) hindex.symm

theorem batch_to_spec_ok {src : Array3 α} (hw : 0 < src.d0) (hf : 0 < src.d1) :
    batch_to_spec (batchOf config src) src.d0 = .ok (padded config src) := by
  have hsize : (batchOf config src).d0 * (batchOf config src).d1 * (batchOf config src).d2 =
      src.d0 * (padded config src).d2 * src.d1 := (batch_size config src).symm
  have hback : (batchOf config src).reshape src.d0 (padded config src).d2 src.d1 hsize =
      (padded config src).transpose :=
    reshape_reshape (padded config src).transpose (batch_size config src) hsize
  have hok : batch_to_spec (batchOf config src) src.d0 =
      .ok (padded config src).transpose.transpose :=
    hback ▸ batch_to_spec_eq hsize hw hf
  rw [hok, transpose_transpose]

/-- Cutting undoes the putting together of a batch of whole waves. -/
theorem batchOf_spec {batch : Array3 α} {num_wavs m : Nat}
    (h : batch.d0 * batch.d1 * batch.d2 = num_wavs * (m * config.SEQ_LEN) * batch.d2)
    (hb : batch.d0 = num_wavs * m) (hs : batch.d1 = config.SEQ_LEN) :
    batchOf config (batch.reshape num_wavs (m * config.SEQ_LEN) batch.d2 h).transpose = batch := by
  have hpad : padded config (batch.reshape num_wavs (m * config.SEQ_LEN) batch.d2 h).transpose =
      (batch.reshape num_wavs (m * config.SEQ_LEN) batch.d2 h).transpose := by
    have hd : (batch.reshape num_wavs (m * config.SEQ_LEN) batch.d2 h).transpose.d2 =
        m * config.SEQ_LEN := rfl
    rw [padded, hd, pad_len_mul, padLast_zero]
  have hentries : entries config
      (batch.reshape num_wavs (m * config.SEQ_LEN) batch.d2 h).transpose.d2 = m :=
    entries_mul config m
  obtain ⟨b0, b1, b2, data, hdata⟩ := batch
  cases hb
  cases hs
  simp only [batchOf, hpad, hentries, transpose_transpose]
  rfl

end Batches

/-- **`spec_to_batch` and `batch_to_spec` are inverse.** With `m` entries for each wave, the
padded spectrogram has the least multiple `m * SEQ_LEN` of frames that holds those of the source,
the source first and zeros after it; row `l` of entry `b` is frame `b % m * SEQ_LEN + l` of wave
`b / m`; `batch_to_spec` gives the padded spectrogram back, and the crop the source. A batch of
whole waves comes back from its spectrogram. -/
theorem spec_to_batch_inverse [Zero α] (config : ModelConfig) :
    (∀ src : Array3 α, 0 < src.d0 → 0 < src.d1 → ∃ batch padded_src m,
      spec_to_batch config src = .ok (batch, padded_src) ∧
      padded_src.shape = (src.d0, src.d1, m * config.SEQ_LEN) ∧
      src.d2 ≤ m * config.SEQ_LEN ∧ (∀ m', src.d2 ≤ m' * config.SEQ_LEN → m ≤ m') ∧
      (∀ w f t, t < src.d2 → padded_src.get? w f t = src.get? w f t) ∧
      (∀ w f t, w < src.d0 → f < src.d1 → src.d2 ≤ t → t < m * config.SEQ_LEN →
        padded_src.get? w f t = some 0) ∧
      batch.shape = (src.d0 * m, config.SEQ_LEN, src.d1) ∧
      (∀ b l f, b < src.d0 * m → l < config.SEQ_LEN → f < src.d1 →
        batch.get? b l f = padded_src.get? (b / m) f (b % m * config.SEQ_LEN + l)) ∧
      batch_to_spec batch src.d0 = .ok padded_src ∧
      padded_src.cropLast src.d2 = src) ∧
    (∀ (batch : Array3 α) (num_wavs : Nat), 0 < num_wavs → 0 < batch.d2 →
      batch.d1 = config.SEQ_LEN → num_wavs ∣ batch.d0 → ∃ spec padded_spec,
      batch_to_spec batch num_wavs = .ok spec ∧
      spec_to_batch config spec = .ok (batch, padded_spec)) := by
  constructor
  · intro src hw hf
    have hdim := add_pad_len config src.d2
    refine ⟨batchOf config src, padded config src, entries config src.d2,
      spec_to_batch_ok config hf, ?_, by omega, fun m' => entries_le config, ?_, ?_, rfl, ?_,
      batch_to_spec_ok config hw hf, cropLast_padLast src _ 0⟩
    · exact congrArg (fun n => (src.d0, src.d1, n)) hdim
    · intro w f t ht
      exact get?_padLast src _ 0 w f ht
    · intro w f t hw' hf' ht ht'
      exact get?_padding src 0 hw' hf' ht (by omega)
    · intro b l f hb hl hf'
      exact batch_entry config hb hl hf'
  · intro batch num_wavs hw hf hs hdvd
    obtain ⟨m, hm⟩ := hdvd
    have hsize : batch.d0 * batch.d1 * batch.d2 = num_wavs * (m * config.SEQ_LEN) * batch.d2 := by
      rw [hm, hs, Nat.mul_assoc num_wavs]
    have hok : spec_to_batch config
        (batch.reshape num_wavs (m * config.SEQ_LEN) batch.d2 hsize).transpose = .ok (batchOf config
          (batch.reshape num_wavs (m * config.SEQ_LEN) batch.d2 hsize).transpose, _) :=
      spec_to_batch_ok config hf
    rw [batchOf_spec config hsize hm hs] at hok
    exact ⟨_, _, batch_to_spec_eq hsize hw hf, hok⟩

end Separation
end SoundScreen
