import Mathlib.Analysis.Real.Sqrt
import SoundScreen.MovingAverage.InterpretWav
import SoundScreen.MovingAverage.RunningMean

/-!
# SoundScreen.MovingAverage.FilterAudio

`filter_audio` of `filter/filter.py`: a moving average as a low-pass filter. `np.insert` puts the
rows of the channels in one list, so the window slides from the end of one channel into the next.

* `windowLength_eq_floor`: the window length is the formula of the source in real numbers.
* `filter_audio_ok`: what the call returns, one sample for each window of the joined channels.
* `channelMeans_iff`: when the samples are the means over the windows of the channels.
-/

namespace SoundScreen
namespace MovingAverage

open Interleave MovingSum

/-- `cutOffFrequency`. -/
def cutOffFrequency : Nat := 400

/-- `int(math.sqrt(0.196196 + freqRatio**2)/freqRatio)`, in exact arithmetic. -/
def windowLength (freqRatio : ℚ) : Nat :=
  Nat.sqrt ⌊(0.196196 + freqRatio ^ 2) / freqRatio ^ 2⌋₊

/-- The result is the element type and the elements. `b` is the width of the platform's integers. -/
def filter_audio (b : Nat) (data : List UInt8)
    (nFrames nChannels nSampleWidth sampleRate : Nat) :
    Except PyError (Σ d : DType, List d.Elem) := do
  let ⟨d, channels⟩ ← interpret_wav data nFrames nChannels nSampleWidth true
  if sampleRate = 0 then
    .error (.ZeroDivisionError "float division by zero")
  else
    let freqRatio : ℚ := cutOffFrequency / sampleRate
    let N := windowLength freqRatio
    let filtered_data ← running_mean b d channels.ravel N
    return ⟨d, filtered_data.map fun q => d.ofInt (truncate q)⟩

/-- `N` at a sample rate. -/
def windowAt (sampleRate : Nat) : Nat := windowLength (cutOffFrequency / sampleRate)

/-- The channels of a chunk, one after the other. -/
def planar {α : Type} (n_channels : Nat) (xs : List α) : List α :=
  (List.ofFn fun c : Fin n_channels => channel n_channels c xs).flatten

/-! ## The window length -/

theorem floor_sqrt {x : ℝ} (hx : 0 ≤ x) : ⌊√x⌋₊ = Nat.sqrt ⌊x⌋₊ := by
  refine (Nat.eq_sqrt'.mpr ⟨?_, ?_⟩)
  · refine Nat.le_floor ?_
    have hle : (⌊√x⌋₊ : ℝ) ≤ √x := Nat.floor_le (Real.sqrt_nonneg x)
    push_cast
    exact (Real.le_sqrt (Nat.cast_nonneg _) hx).mp hle
  · refine (Nat.floor_lt hx).mpr ?_
    have hlt : √x < ⌊√x⌋₊ + 1 := Nat.lt_floor_add_one (√x)
    push_cast
    exact (Real.sqrt_lt' (by positivity)).mp hlt

theorem windowLength_eq_floor {freqRatio : ℚ} (h : 0 < freqRatio) :
    windowLength freqRatio = ⌊√(0.196196 + (freqRatio : ℝ) ^ 2) / freqRatio⌋₊ := by
  have hpos : (0 : ℝ) < freqRatio := by exact_mod_cast h
  have hroot : √(0.196196 + (freqRatio : ℝ) ^ 2) / freqRatio =
      √((0.196196 + (freqRatio : ℝ) ^ 2) / (freqRatio : ℝ) ^ 2) := by
    rw [Real.sqrt_div (by positivity), Real.sqrt_sq hpos.le]
  have hcast : ((0.196196 + (freqRatio : ℝ) ^ 2) / (freqRatio : ℝ) ^ 2) =
      (((0.196196 + freqRatio ^ 2) / freqRatio ^ 2 : ℚ) : ℝ) := by
    push_cast
    norm_num
  rw [hroot, floor_sqrt (by positivity), hcast, ← Int.floor_toNat, Rat.floor_cast,
    Int.floor_toNat, windowLength]

theorem windowLength_pos {freqRatio : ℚ} (h : 0 < freqRatio) : 0 < windowLength freqRatio := by
  refine Nat.sqrt_pos.mpr (Nat.floor_pos.mpr ?_)
  rw [le_div_iff₀ (by positivity), one_mul]
  linarith

theorem windowAt_pos {sampleRate : Nat} (hr : 0 < sampleRate) : 0 < windowAt sampleRate :=
  windowLength_pos (div_pos (by norm_num [cutOffFrequency]) (by exact_mod_cast hr))

/-! ## One call -/

section Planar

variable {α : Type} {n_channels n_frames : Nat} {xs : List α}

theorem channel_rows (h : xs.length = n_frames * n_channels) :
    ∀ l ∈ List.ofFn fun c : Fin n_channels => channel n_channels c xs, l.length = n_frames := by
  intro l hl
  obtain ⟨c, rfl⟩ := List.mem_ofFn.mp hl
  rw [channel_length, h, Nat.mul_div_cancel _ c.pos]

theorem planar_length (h : xs.length = n_frames * n_channels) :
    (planar n_channels xs).length = xs.length := by
  rw [planar, Blocks.flatten_length (channel_rows h), List.length_ofFn, h, Nat.mul_comm]

/-- A window that starts early enough in a channel stays in it. -/
theorem windowSum_planar (value : α → Int) (h : xs.length = n_frames * n_channels)
    (c : Fin n_channels) {w i : Nat} (hi : i + w ≤ n_frames) :
    windowSum w ((planar n_channels xs).map value) (c * n_frames + i) =
      windowSum w ((channel n_channels c xs).map value) i := by
  rw [planar, List.map_flatten]
  refine windowSum_flatten ?_ ?_ hi
  · intro l hl
    obtain ⟨l', hl', rfl⟩ := List.mem_map.mp hl
    rw [List.length_map]
    exact channel_rows h l' hl'
  · rw [List.getElem?_map, List.getElem?_ofFn, dif_pos c.isLt]
    rfl

end Planar

theorem filter_audio_ok (b : Nat) (d : DType) {xs : List d.Elem}
    {n_frames n_channels sampleRate : Nat} (h : xs.length = n_frames * n_channels)
    (hr : 0 < sampleRate) :
    filter_audio b (tobytes d xs) n_frames n_channels d.itemsize sampleRate =
      .ok ⟨d, (List.range (xs.length + 1 - windowAt sampleRate)).map fun i =>
        d.ofInt (truncate ((d.total (BitVec.ofInt b
          (windowSum (windowAt sampleRate) ((planar n_channels xs).map d.value) i)) : ℚ) /
            windowAt sampleRate))⟩ := by
  obtain ⟨m, hm, hrows⟩ := interpret_wav_ok d h
  have hravel : m.ravel = planar n_channels xs := congrArg List.flatten hrows
  have hmean := prefixMean_ok (b := b) d.total ((planar n_channels xs).map d.value)
    (windowAt_pos hr)
  rw [List.length_map, planar_length h] at hmean
  simp only [filter_audio, hm, bind, Except.bind, if_neg (Nat.pos_iff_ne_zero.mp hr), hravel,
    running_mean]
  rw [show windowLength (cutOffFrequency / sampleRate) = windowAt sampleRate from rfl, hmean]
  simp only [List.map_map]
  rfl

/-! ## Means of channels -/

/-- The mean over the window at position `i` of channel `c`, truncated. -/
def channelMean {n_channels : Nat} (w : Nat) (chunk : List Int16) (c : Fin n_channels)
    (i : Nat) : Int :=
  truncate (((windowSum w ((channel n_channels c chunk).map Int16.toInt) i : Int) : ℚ) / w)

/-- A position in the result for each channel and each of its `n` window positions. -/
abbrev Place (n_channels n : Nat) := Fin n_channels × Fin n ≃ Fin (n_channels * n)

/-- The result for a chunk is made of the means over the windows of the channels, each once. -/
def ChannelMeans (b n_frames n_channels sampleRate : Nat)
    (place : Place n_channels (n_frames - windowAt sampleRate + 1)) (chunk : List Int16) : Prop :=
  ∃ out : List Int16,
    filter_audio b (tobytes .int16 chunk) n_frames n_channels 2 sampleRate =
      .ok ⟨.int16, out⟩ ∧
    out.length = n_channels * (n_frames - windowAt sampleRate + 1) ∧
    ∀ c i, out[(place (c, i)).val]?.map Int16.toInt =
      some (channelMean (windowAt sampleRate) chunk c i)

/-- The sample of the result at a window of the joined channels. -/
def outSample (b w : Nat) (flat : List Int16) (i : Nat) : Int16 :=
  Int16.ofInt (truncate (((BitVec.ofInt b (windowSum w (flat.map Int16.toInt) i)).toInt : ℚ) / w))

/-- As long as the sum fits, the sample is the mean, truncated. -/
theorem outSample_toInt {b w i : Nat} {flat : List Int16} (hw : 0 < w)
    (hb : w * 2 ^ 15 ≤ 2 ^ (b - 1)) (hi : i + w ≤ flat.length) :
    (outSample b w flat i).toInt =
      truncate (((windowSum w (flat.map Int16.toInt) i : Int) : ℚ) / w) := by
  have hbounds := windowSum_bounds int16_bounds ((List.length_map Int16.toInt).symm ▸ hi)
  have hwq : (0 : ℚ) < w := by exact_mod_cast hw
  have hlo : truncate ((-2 ^ 15 : Int) : ℚ) ≤
      truncate (((windowSum w (flat.map Int16.toInt) i : Int) : ℚ) / w) := by
    refine truncate_mono ?_
    rw [le_div_iff₀ hwq, mul_comm]
    exact_mod_cast hbounds.1
  have hhi : truncate (((windowSum w (flat.map Int16.toInt) i : Int) : ℚ) / w) ≤
      truncate ((2 ^ 15 - 1 : Int) : ℚ) := by
    refine truncate_mono ?_
    rw [div_le_iff₀ hwq, mul_comm]
    exact_mod_cast hbounds.2
  rw [truncate_intCast] at hlo hhi
  rw [outSample, int16_sum_fits hw hb hi]
  exact Int16.toInt_ofInt_of_le (by omega) (by omega)

/-- If `w` of the least samples do not fit, their mean never comes out. -/
theorem outSample_ne {b w : Nat} (hw : 0 < w) (hb : 2 ^ (b - 1) < w * 2 ^ 15)
    (flat : List Int16) (i : Nat) : (outSample b w flat i).toInt ≠ -2 ^ 15 := by
  have hpow : ((2 ^ (b - 1) : Nat) : Int) = 2 ^ (b - 1) := by push_cast; rfl
  have hlo := BitVec.le_toInt (BitVec.ofInt b (windowSum w (flat.map Int16.toInt) i))
  have hhi := BitVec.toInt_lt (x := BitVec.ofInt b (windowSum w (flat.map Int16.toInt) i))
  have hwq : (0 : ℚ) < w := by exact_mod_cast hw
  unfold outSample
  generalize (BitVec.ofInt b (windowSum w (flat.map Int16.toInt) i)).toInt = v at hlo hhi ⊢
  have hvlo : -((2 ^ 15 : Int) : ℚ) < (v : ℚ) / w := by
    rw [lt_div_iff₀ hwq]
    have : -(2 ^ 15) * (w : Int) < v := by omega
    exact_mod_cast this
  have hvhi : (v : ℚ) / w < ((2 ^ 15 : Int) : ℚ) := by
    rw [div_lt_iff₀ hwq]
    have : v < 2 ^ 15 * (w : Int) := by omega
    exact_mod_cast this
  obtain ⟨h₁, h₂⟩ := truncate_bounds (by norm_num) hvlo hvhi
  rw [Int16.toInt_ofInt_of_le (by omega) (by omega)]
  omega

section Chunks

variable {b n_frames n_channels sampleRate : Nat} {chunk : List Int16}

theorem filter_audio_int16 (h : chunk.length = n_frames * n_channels) (hr : 0 < sampleRate) :
    filter_audio b (tobytes .int16 chunk) n_frames n_channels 2 sampleRate =
      .ok ⟨.int16, (List.range (chunk.length + 1 - windowAt sampleRate)).map
        (outSample b (windowAt sampleRate) (planar n_channels chunk))⟩ :=
  filter_audio_ok b .int16 h hr

/-- There are as many windows of the joined channels as of the channels, for one channel or
windows of one sample only. -/
theorem one_of_length {w : Nat} (hw : 0 < w) (hN : w ≤ n_frames)
    (h : n_frames * n_channels + 1 - w = n_channels * (n_frames - w + 1)) (hc : 1 ≤ n_channels) :
    n_channels = 1 ∨ w = 1 := by
  obtain ⟨m, rfl⟩ := Nat.exists_eq_add_of_le hN
  obtain ⟨v, rfl⟩ := Nat.exists_eq_add_of_le hw
  obtain ⟨c, rfl⟩ := Nat.exists_eq_add_of_le hc
  have hexp : (1 + v + m) * (1 + c) + 1 - (1 + v) = (1 + c) * (m + 1) + c * v := by
    rw [Nat.sub_eq_iff_eq_add (by nlinarith)]
    ring
  rw [hexp, Nat.add_sub_cancel_left] at h
  have hzero : c * v = 0 := by omega
  rcases Nat.mul_eq_zero.mp hzero with h0 | h0
  · exact .inl (by omega)
  · exact .inr (by omega)

theorem ChannelMeans.one {place : Place n_channels (n_frames - windowAt sampleRate + 1)}
    (hr : 0 < sampleRate) (hc : 1 ≤ n_channels) (hN : windowAt sampleRate ≤ n_frames)
    (h : chunk.length = n_frames * n_channels)
    (hmeans : ChannelMeans b n_frames n_channels sampleRate place chunk) :
    n_channels = 1 ∨ windowAt sampleRate = 1 := by
  obtain ⟨out, hout, hlen, -⟩ := hmeans
  rw [filter_audio_int16 h hr] at hout
  cases hout
  rw [List.length_map, List.length_range, h] at hlen
  exact one_of_length (windowAt_pos hr) hN hlen hc

theorem channelMean_replicate {w : Nat} (hw : 0 < w) (hN : w ≤ n_frames) (c : Fin n_channels)
    (x : Int16) : channelMean w (List.replicate (n_frames * n_channels) x) c 0 = x.toInt := by
  have hwq : (w : ℚ) ≠ 0 := by exact_mod_cast hw.ne'
  have hsum : windowSum w ((List.replicate n_frames x).map Int16.toInt) 0 = w * x.toInt := by
    rw [windowSum, List.map_replicate, List.drop_zero, List.take_replicate,
      Nat.min_eq_left hN, List.sum_replicate, nsmul_eq_mul]
  have hquot : ((w * x.toInt : Int) : ℚ) / w = x.toInt := by
    push_cast
    field_simp
  rw [channelMean, channel_replicate, hsum, hquot, truncate_intCast]

/-- The loudest chunk asks for words that hold the sum of a window of the least samples. -/
theorem ChannelMeans.fits {place : Place n_channels (n_frames - windowAt sampleRate + 1)}
    (hr : 0 < sampleRate) (hc : 1 ≤ n_channels) (hN : windowAt sampleRate ≤ n_frames)
    (hmeans : ChannelMeans b n_frames n_channels sampleRate place
      (List.replicate (n_frames * n_channels) (-2 ^ 15))) :
    windowAt sampleRate * 2 ^ 15 ≤ 2 ^ (b - 1) := by
  have hw := windowAt_pos hr
  obtain ⟨out, hout, -, hget⟩ := hmeans
  rw [filter_audio_int16 List.length_replicate hr] at hout
  cases hout
  by_contra hfits
  have hfirst := hget ⟨0, hc⟩ ⟨0, Nat.succ_pos _⟩
  rw [channelMean_replicate hw hN, List.getElem?_map] at hfirst
  cases hpos : (List.range ((List.replicate (n_frames * n_channels) (-2 ^ 15 : Int16)).length + 1 -
      windowAt sampleRate))[(place (⟨0, hc⟩, ⟨0, Nat.succ_pos _⟩)).val]? with
  | none =>
    rw [hpos] at hfirst
    cases hfirst
  | some p =>
    rw [hpos] at hfirst
    exact outSample_ne hw (by omega) _ p (Option.some.inj hfirst)

/-- Channel after channel. -/
theorem place_val {w : Nat} (hN : w ≤ n_frames) (hw : 0 < w) (h : n_channels = 1 ∨ w = 1)
    (c : Fin n_channels) (i : Fin (n_frames - w + 1)) :
    (finProdFinEquiv (c, i)).val = c * n_frames + i := by
  have hc := c.isLt
  have hval : (finProdFinEquiv (c, i)).val = i.val + (n_frames - w + 1) * c.val := rfl
  rcases h with rfl | rfl
  · have hzero : c.val = 0 := by omega
    rw [hval, hzero]
    omega
  · have hmul : (n_frames - 1 + 1) * c.val = c.val * n_frames := by
      rw [Nat.sub_add_cancel hN, Nat.mul_comm]
    rw [hval, hmul, Nat.add_comm]

theorem channelMeans_of (hr : 0 < sampleRate) (hN : windowAt sampleRate ≤ n_frames)
    (hone : n_channels = 1 ∨ windowAt sampleRate = 1)
    (hfits : windowAt sampleRate * 2 ^ 15 ≤ 2 ^ (b - 1))
    (h : chunk.length = n_frames * n_channels) :
    ChannelMeans b n_frames n_channels sampleRate finProdFinEquiv chunk := by
  have hw := windowAt_pos hr
  have hlen : chunk.length + 1 - windowAt sampleRate =
      n_channels * (n_frames - windowAt sampleRate + 1) := by
    rcases hone with rfl | h1
    · omega
    · rw [h1, h, Nat.mul_comm]
      rw [h1] at hN
      rw [Nat.sub_add_cancel hN, Nat.add_sub_cancel]
  refine ⟨_, filter_audio_int16 h hr, by rw [List.length_map, List.length_range, hlen], ?_⟩
  intro c i
  have hplace := place_val hN hw hone c i
  have hlt : (finProdFinEquiv (c, i)).val < chunk.length + 1 - windowAt sampleRate := by
    rw [hlen]
    exact (finProdFinEquiv (c, i)).isLt
  rw [List.getElem?_map, List.getElem?_range hlt, Option.map_some, Option.map_some,
    outSample_toInt hw hfits (by rw [planar_length h]; omega), hplace,
    windowSum_planar Int16.toInt h c (by omega), channelMean]

end Chunks

/-- **Means of single channels.** For at least one channel and one window of frames: the call
returns for every chunk the means over the windows of its channels, each once and in fixed places,
exactly for one channel or windows of one sample, in words that hold the sum of a window. With more
channels and longer windows it does so for no chunk. -/
theorem channelMeans_iff (b n_frames n_channels sampleRate : Nat) (hr : 0 < sampleRate)
    (hc : 1 ≤ n_channels) (hN : windowAt sampleRate ≤ n_frames) :
    ((∃ place, ∀ chunk, chunk.length = n_frames * n_channels →
        ChannelMeans b n_frames n_channels sampleRate place chunk) ↔
      (n_channels = 1 ∨ windowAt sampleRate = 1) ∧
        windowAt sampleRate * 2 ^ 15 ≤ 2 ^ (b - 1)) ∧
    (¬(n_channels = 1 ∨ windowAt sampleRate = 1) → ∀ place chunk,
      chunk.length = n_frames * n_channels →
        ¬ChannelMeans b n_frames n_channels sampleRate place chunk) := by
  refine ⟨⟨?_, ?_⟩, ?_⟩
  · rintro ⟨place, hall⟩
    have hloud := hall (List.replicate (n_frames * n_channels) (-2 ^ 15)) List.length_replicate
    exact ⟨hloud.one hr hc hN List.length_replicate, hloud.fits hr hc hN⟩
  · rintro ⟨hone, hfits⟩
    exact ⟨finProdFinEquiv, fun chunk h => channelMeans_of hr hN hone hfits h⟩
  · intro hmany place chunk h hmeans
    exact hmany (hmeans.one hr hc hN h)

/-- One channel at 2000 samples a second: windows of two samples. -/
theorem channelMeans_iff_mono : ∃ place, ∀ chunk, chunk.length = 3 * 1 →
    ChannelMeans 32 3 1 2000 place chunk := by
  have hN : windowAt 2000 = 2 := by decide +kernel
  exact (channelMeans_iff 32 3 1 2000 (by decide) (by decide) (by rw [hN]; decide)).1.mpr
    ⟨.inl rfl, by rw [hN]; decide⟩

/-- Two frames, silence on the left and 100 on the right: the second sample mixes them. -/
theorem stereo_means_mix :
    windowAt 2000 = 2 ∧
    filter_audio 64 (tobytes .int16 [0, 100, 0, 100]) 2 2 2 2000 = .ok ⟨.int16, [0, 50, 100]⟩ ∧
    ∀ place, ¬ChannelMeans 64 2 2 2000 place [0, 100, 0, 100] := by
  have hN : windowAt 2000 = 2 := by decide +kernel
  refine ⟨hN, ?_, ?_⟩
  · have hout : (List.range 3).map (outSample 64 2 (planar 2 [0, 100, 0, 100])) = [0, 50, 100] := by
      decide +kernel
    rw [filter_audio_int16 rfl (by decide), hN, ← hout]
    rfl
  · intro place hmeans
    have hone := hmeans.one (by decide) (by decide) (by rw [hN]) rfl
    rw [hN] at hone
    omega

end MovingAverage
end SoundScreen
