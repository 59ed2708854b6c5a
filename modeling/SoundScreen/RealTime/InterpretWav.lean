import SoundScreen.MovingAverage.InterpretWav
import SoundScreen.RealTime.FreqFilter

/-!
# SoundScreen.RealTime.InterpretWav

`interpret_wav` of `real_time_audio/freqfilter.py`, which is also in `ml_rt/eval.py`, beside the
one of `filter/filter.py` that it was copied from: it is given the samples where that one is given
their bytes.

* `interpret_wav_not_interleaved`: the branch for channels that are not interleaved always fails.
* `keepsContract_iff`: so the two agree where that branch is not taken, or both fail.
-/

namespace SoundScreen
namespace FreqFilter

open MovingAverage (tobytes map_error_iff)

/-- The two functions return the same channels for the samples and for their bytes, and raise for
the same arguments. -/
structure KeepsContract (d : DType) (audio_data : List d.Elem) (n_frames n_channels : Nat)
    (interleaved : Bool) : Prop where
  returns : ∀ channels,
    interpret_wav audio_data n_frames n_channels d.itemsize interleaved = .ok channels ↔
      MovingAverage.interpret_wav (tobytes d audio_data) n_frames n_channels d.itemsize
        interleaved = .ok ⟨d, channels⟩
  raises :
    (∃ e, interpret_wav audio_data n_frames n_channels d.itemsize interleaved = .error e) ↔
      ∃ e, MovingAverage.interpret_wav (tobytes d audio_data) n_frames n_channels d.itemsize
        interleaved = .error e

theorem supported_itemsize (d : DType) :
    d.itemsize = 1 ∨ d.itemsize = 2 ∨ d.itemsize = 4 := by
  cases d with
  | uint8 => exact .inl rfl
  | int16 => exact .inr (.inl rfl)

section

variable {d : DType} (audio_data : List d.Elem) (n_frames n_channels : Nat)

theorem interpret_wav_interleaved :
    interpret_wav audio_data n_frames n_channels d.itemsize true =
      (Mat.reshape audio_data n_frames n_channels).map Mat.T := by
  rw [interpret_wav, if_pos (supported_itemsize d), if_pos rfl]
  cases Mat.reshape audio_data n_frames n_channels with
  | ok m => rfl
  | error e => rfl

/-- The shape of `channels` is set, which has not been assigned. -/
theorem interpret_wav_not_interleaved :
    interpret_wav audio_data n_frames n_channels d.itemsize false =
      .error (.UnboundLocalError "local variable 'channels' referenced before assignment") := by
  rw [interpret_wav, if_pos (supported_itemsize d), if_neg Bool.false_ne_true]

theorem keepsContract_interleaved : KeepsContract d audio_data n_frames n_channels true := by
  have hfile := MovingAverage.interpret_wav_of_fromstring
    (MovingAverage.fromstring_tobytes d audio_data) n_frames n_channels true
  rw [if_pos rfl] at hfile
  constructor
  · intro channels
    rw [interpret_wav_interleaved, hfile]
    cases Mat.reshape audio_data n_frames n_channels with
    | ok m => simp [Except.map]
    | error e => simp [Except.map]
  · rw [interpret_wav_interleaved, hfile, map_error_iff, map_error_iff]

theorem keepsContract_not_interleaved :
    KeepsContract d audio_data n_frames n_channels false ↔
      audio_data.length ≠ n_frames * n_channels := by
  have hreal := interpret_wav_not_interleaved audio_data n_frames n_channels
  have hfile := MovingAverage.interpret_wav_of_fromstring
    (MovingAverage.fromstring_tobytes d audio_data) n_frames n_channels false
  rw [if_neg Bool.false_ne_true] at hfile
  constructor
  · intro h
    have hraises := h.raises.mp ⟨_, hreal⟩
    rw [hfile, map_error_iff, Mat.reshape_error_iff, Nat.mul_comm] at hraises
    exact hraises
  · intro hlen
    obtain ⟨e, he⟩ := Mat.reshape_error_iff.mpr (Nat.mul_comm n_frames n_channels ▸ hlen)
    have hfails : MovingAverage.interpret_wav (tobytes d audio_data) n_frames n_channels
        d.itemsize false = .error e := by
      rw [hfile, he]
      rfl
    constructor
    · intro channels
      rw [hreal, hfails]
      exact iff_of_false (fun h => nomatch h) fun h => nomatch h
    · exact iff_of_true ⟨_, hreal⟩ ⟨e, hfails⟩

end

/-- **The contract of the file version.** For arrays of samples of one or two bytes, all counts and
both layouts: the real-time version keeps it exactly if the samples are interleaved, or are not as
many as the counts say. -/
theorem keepsContract_iff (d : DType) (audio_data : List d.Elem) (n_frames n_channels : Nat)
    (interleaved : Bool) :
    KeepsContract d audio_data n_frames n_channels interleaved ↔
      interleaved = true ∨ audio_data.length ≠ n_frames * n_channels := by
  cases interleaved with
  | true => exact iff_of_true (keepsContract_interleaved audio_data n_frames n_channels) (.inl rfl)
  | false =>
    rw [keepsContract_not_interleaved, or_iff_right Bool.false_ne_true]

/-- One frame of two channels, one after the other. -/
theorem two_rows_raise :
    interpret_wav ([1, 2] : List Int16) 1 2 2 false =
      .error (.UnboundLocalError "local variable 'channels' referenced before assignment") ∧
    (∃ m, MovingAverage.interpret_wav (tobytes .int16 [1, 2]) 1 2 2 false = .ok ⟨.int16, m⟩ ∧
      m.toRows = [[1], [2]]) ∧
    ¬KeepsContract .int16 [1, 2] 1 2 false := by
  refine ⟨rfl, ?_, ?_⟩
  · have hfile := MovingAverage.interpret_wav_of_fromstring
      (MovingAverage.fromstring_tobytes .int16 [1, 2]) 1 2 false
    exact ⟨_, hfile, rfl⟩
  · rw [keepsContract_not_interleaved]
    exact not_not.mpr rfl

end FreqFilter
end SoundScreen
