import SoundScreen.Numpy

/-!
# SoundScreen.Separation.Reconstruct

`to_wav_mag_only` of `music-source-separation-py3/preprocess.py`, which `ml_rt/preprocess.py` has
in the same words. `A` are the arrays of a magnitude or a phase, `W` the waveforms, and
`griffin_lim` is any function.

* `to_wav_mag_only_one`, `to_wav_mag_only_functions`: what is returned.
* `never_batchWise`: it is never the waveforms of the batch.
-/

namespace SoundScreen
namespace Separation

variable {A W : Type}

/-- An element of the array that is returned: a waveform, or a function of a phase. -/
inductive Reconstruction (A W : Type) where
  | wav (w : W)
  | function (f : A → W)

/-- The inner `lambda` is not called. -/
def to_wav_mag_only (griffin_lim : A → Nat → Nat → Nat → A → W) (mag init_phase : List A)
    (len_frame len_hop num_iters : Nat) : Except PyError (List (Reconstruction A W)) :=
  match (mag.zip init_phase)[1]? with
  | some (m, p) =>
    .ok ([m, p].map fun m => .function fun p => griffin_lim m len_frame len_hop num_iters p)
  | none => .error (.IndexError "list index out of range")

/-- The call succeeds with a waveform for each magnitude, made from it and its own phase. -/
def BatchWise (griffin_lim : A → Nat → Nat → Nat → A → W) (mag init_phase : List A)
    (len_frame len_hop num_iters : Nat) : Prop :=
  ∃ wavs : List (Reconstruction A W),
    to_wav_mag_only griffin_lim mag init_phase len_frame len_hop num_iters = .ok wavs ∧
    wavs.length = mag.length ∧
    ∀ (i : Nat) (m p : A), mag[i]? = some m → init_phase[i]? = some p →
      wavs[i]? = some (Reconstruction.wav (griffin_lim m len_frame len_hop num_iters p))

section

variable (griffin_lim : A → Nat → Nat → Nat → A → W) (len_frame len_hop num_iters : Nat)

/-- A batch of one has no second pair. -/
theorem to_wav_mag_only_one (m p : A) :
    to_wav_mag_only griffin_lim [m] [p] len_frame len_hop num_iters =
      .error (.IndexError "list index out of range") := rfl

/-- Of a larger batch the second pair is taken, and a function is made of its magnitude, and one
of its phase. -/
theorem to_wav_mag_only_functions (m₀ m₁ p₀ p₁ : A) (mag init_phase : List A) :
    to_wav_mag_only griffin_lim (m₀ :: m₁ :: mag) (p₀ :: p₁ :: init_phase) len_frame len_hop
        num_iters =
      .ok [.function (griffin_lim m₁ len_frame len_hop num_iters),
        .function (griffin_lim p₁ len_frame len_hop num_iters)] := rfl

end

/-- **Reconstruction from magnitudes.** For no `griffin_lim` and no batch does `to_wav_mag_only`
return the waveforms: it raises, or it returns functions. -/
theorem never_batchWise (griffin_lim : A → Nat → Nat → Nat → A → W) (mag init_phase : List A)
    (len_frame len_hop num_iters : Nat) :
    ¬BatchWise griffin_lim mag init_phase len_frame len_hop num_iters := by
  rintro ⟨wavs, hok, -, hwavs⟩
  match mag, init_phase with
  | [], _ => cases hok
  | _ :: _, [] => cases hok
  | [_], _ :: _ => cases hok
  | _ :: _ :: _, [_] => cases hok
  | m₀ :: m₁ :: mag, p₀ :: p₁ :: init_phase =>
    rw [to_wav_mag_only_functions] at hok
    cases hok
    have hfirst := hwavs 0 m₀ p₀ rfl rfl
    cases hfirst

/-- Magnitude 3 and phase 5, as a batch of one and twice. -/
theorem add_not_batchWise :
    to_wav_mag_only (fun m _ _ _ p => m + p) [3] [5] 1024 256 50 =
      (.error (.IndexError "list index out of range") :
        Except PyError (List (Reconstruction Nat Nat))) ∧
    ¬BatchWise (fun m _ _ _ p => m + p) [3] [5] 1024 256 50 ∧
    to_wav_mag_only (fun m _ _ _ p => m + p) [3, 3] [5, 5] 1024 256 50 =
      (.ok [.function fun p => 3 + p, .function fun p => 5 + p] :
        Except PyError (List (Reconstruction Nat Nat))) ∧
    ¬BatchWise (fun m _ _ _ p => m + p) [3, 3] [5, 5] 1024 256 50 := by
  refine ⟨rfl, ?_, rfl, ?_⟩
  · rintro ⟨wavs, hok, -⟩
    cases hok
  · rintro ⟨wavs, hok, -, hwavs⟩
    cases hok
    cases hwavs 0 3 5 rfl rfl

end Separation
end SoundScreen
