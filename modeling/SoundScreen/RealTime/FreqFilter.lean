import SoundScreen.Numpy

/-!
# SoundScreen.RealTime.FreqFilter

`real_time_audio/freqfilter.py`: the band-pass back end the C recorder loads. SciPy's part, from
the cutoff frequencies to what `butter`, `lfilter` and `astype` do to one row, is a parameter
(`Bandpass`); the splitting of the buffer into channels and back is the module's own.

* `filter_audio_ok`: the call succeeds on whole stereo frames and filters each channel by itself.
* `filter_audio_routes`: sample by sample, what comes out on a channel is what went in on it,
  filtered.
-/

namespace SoundScreen

/-- `butter_bandpass_filter(·, lowcut, highcut, fs, order).astype(·.dtype)` on one row. -/
abbrev Bandpass := Nat → Nat → Nat → Nat → RowFilter

namespace FreqFilter

open Interleave

/-- The array has elements of any type: `dtype` is not used. -/
def interpret_wav {α : Type} (audio_data : List α) (n_frames n_channels sample_width : Nat)
    (interleaved : Bool) : Except PyError (Mat α) :=
  if sample_width = 1 ∨ sample_width = 2 ∨ sample_width = 4 then
    if interleaved then
      match Mat.reshape audio_data n_frames n_channels with
      | .ok m => .ok m.T
      | .error e => .error e
    else
      .error (.UnboundLocalError "local variable 'channels' referenced before assignment")
  else
    .error (.ValueError "Only supports 8, 16 and 32 bit audio formats.")

def filter_audio (butter_bandpass_filter : Bandpass) (raw_data : List SAMPLE)
    (n_frames n_channels sample_width sample_rate : Nat) : Except PyError (List SAMPLE) := do
  let channels ← interpret_wav raw_data n_frames n_channels sample_width true
  let lowcut := 50
  let highcut := 500
  let filtered := channels.toRows.map (butter_bandpass_filter lowcut highcut sample_rate 2).run
  let left ← pyIndex filtered 0
  let right ← pyIndex filtered 1
  return interleave left right

/-- The filtered rows put back into one buffer. -/
def stereo (F : RowFilter) (xs : List SAMPLE) : List SAMPLE :=
  interleave (F.run (channel 2 0 xs)) (F.run (channel 2 1 xs))

theorem rows_length (F : RowFilter) (xs : List SAMPLE) :
    (F.run (channel 2 0 xs)).length = (F.run (channel 2 1 xs)).length := by simp

theorem stereo_length (F : RowFilter) {xs : List SAMPLE} (h : 2 ∣ xs.length) :
    (stereo F xs).length = xs.length := by
  rw [stereo, interleave_length (rows_length F xs), F.length_run, channel_length,
    Nat.mul_div_cancel' h]

/-- A buffer of `n_frames` interleaved stereo frames is read as its two channels. -/
theorem interpret_wav_ok {xs : List SAMPLE} {n_frames sample_width : Nat}
    (h : xs.length = n_frames * 2)
    (hw : sample_width = 1 ∨ sample_width = 2 ∨ sample_width = 4) :
    ∃ m, interpret_wav xs n_frames 2 sample_width true = .ok m ∧
      m.toRows = [channel 2 0 xs, channel 2 1 xs] := by
  cases hm : Mat.reshape xs n_frames 2 with
  | error e => simp [Mat.reshape, h] at hm
  | ok m =>
    refine ⟨m.T, by simp only [interpret_wav, if_pos hw, if_true, hm], ?_⟩
    rw [Mat.reshape_T_toRows h hm]
    rfl

theorem filter_audio_ok (B : Bandpass) {xs : List SAMPLE} {n_frames sample_width : Nat}
    (sample_rate : Nat) (h : xs.length = n_frames * 2)
    (hw : sample_width = 1 ∨ sample_width = 2 ∨ sample_width = 4) :
    filter_audio B xs n_frames 2 sample_width sample_rate =
      .ok (stereo (B 50 500 sample_rate 2) xs) := by
  obtain ⟨m, hm, hrows⟩ := interpret_wav_ok h hw
  simp only [filter_audio, hm, bind, Except.bind, hrows, List.map_cons, List.map_nil]
  rfl

/-- Sample `2 * i + c` of the result is sample `i` of the filtered channel `c`. -/
theorem stereo_getElem? (F : RowFilter) (xs : List SAMPLE) (c : Fin 2) (i : Nat) :
    (stereo F xs)[2 * i + c]? = (F.run (channel 2 c xs))[i]? := by
  obtain ⟨h₀, h₁⟩ := interleave_getElem? (rows_length F xs) i
  match c with
  | 0 => exact h₀
  | 1 => exact h₁

/-- Buffers that agree on channel `c` have the same channel `c`. -/
theorem channel_congr {xs ys : List SAMPLE} {n_frames : Nat} (hx : xs.length = 2 * n_frames)
    (hy : ys.length = 2 * n_frames) (c : Fin 2)
    (h : ∀ j, j < n_frames → xs[2 * j + c]? = ys[2 * j + c]?) :
    channel 2 c xs = channel 2 c ys := by
  refine eq_channel c (by rw [channel_length]; omega) ?_
  intro j hj
  rw [channel_length] at hj
  rw [channel_getElem? c hj]
  exact h j (by omega)

/-- **The routing of the channels.** On `n_frames` stereo frames, in every sample width, the call
returns as many samples; sample `2 * i + c` is sample `i` of the filtered channel `c`; buffers that
agree on a channel give results that agree on it; and through the identity nothing changes. -/
theorem filter_audio_routes (B : Bandpass) (xs : List SAMPLE) (n_frames sample_width : Nat)
    (sample_rate : Nat) (h : xs.length = 2 * n_frames)
    (hw : sample_width = 1 ∨ sample_width = 2 ∨ sample_width = 4) :
    ∃ result, filter_audio B xs n_frames 2 sample_width sample_rate = .ok result ∧
      result.length = 2 * n_frames ∧
      (∀ c : Fin 2, ∃ s : List SAMPLE, s.length = n_frames ∧
        (∀ j, j < n_frames → s[j]? = xs[2 * j + c]?) ∧
        ∀ i, i < n_frames → result[2 * i + c]? = ((B 50 500 sample_rate 2).run s)[i]?) ∧
      (∀ (ys result' : List SAMPLE) (c : Fin 2), ys.length = 2 * n_frames →
        filter_audio B ys n_frames 2 sample_width sample_rate = .ok result' →
        (∀ j, j < n_frames → xs[2 * j + c]? = ys[2 * j + c]?) →
        ∀ i, i < n_frames → result[2 * i + c]? = result'[2 * i + c]?) ∧
      (B 50 500 sample_rate 2 = RowFilter.id → result = xs) := by
  have hlen : xs.length = n_frames * 2 := by omega
  have hdvd : 2 ∣ xs.length := ⟨n_frames, h⟩
  refine ⟨_, filter_audio_ok B sample_rate hlen hw, ?_, ?_, ?_, ?_⟩
  · rw [stereo_length _ hdvd, h]
  · intro c
    refine ⟨channel 2 c xs, by rw [channel_length]; omega, ?_, ?_⟩
    · intro j hj
      exact channel_getElem? c (by omega)
    · intro i _
      exact stereo_getElem? _ xs c i
  · intro ys result' c hy hok hagree i _
    rw [filter_audio_ok B sample_rate (by omega) hw] at hok
    cases hok
    rw [stereo_getElem?, stereo_getElem?, channel_congr h hy c hagree]
  · intro hid
    rw [stereo, hid]
    exact interleave_channel hdvd

/-- Two frames through a filter that turns each row around. -/
theorem filter_audio_routes_reversed :
    ∃ result, filter_audio (fun _ _ _ _ => ⟨List.reverse, fun _ => List.length_reverse⟩)
      [1, 2, 3, 4] 2 2 4 48000 = .ok result ∧ result.length = 4 := by
  obtain ⟨result, hok, hlen, -⟩ := filter_audio_routes
    (fun _ _ _ _ => ⟨List.reverse, fun _ => List.length_reverse⟩) [1, 2, 3, 4] 2 4 48000 rfl
    (.inr (.inr rfl))
  exact ⟨result, hok, hlen⟩

end FreqFilter
end SoundScreen
