import Mathlib.Algebra.BigOperators.Ring.List
import Mathlib.Algebra.Field.Defs
import SoundScreen.Lib.Lfilter
import SoundScreen.RealTime.FreqFilter

/-!
# SoundScreen.RealTime.Streaming

The recorders call `filter_audio` once per chunk, and every call starts `lfilter` from rest. So
streaming is not filtering of the whole recording: the filter forgets its state at every cut.

`streaming_restarts` says what streaming computes, that the first chunk agrees with one call on
the whole stream, and that a cut never shows exactly for the memoryless filters.
-/

namespace SoundScreen
namespace FreqFilter

open Interleave Lfilter

variable {K : Type} [Field K]

/-- SciPy's and NumPy's share: the coefficients `butter` designs and the conversion of the
filtered values back to `int32`. -/
structure Scipy (K : Type) where
  butter : Nat → K → K → Coeffs K
  astype : K → SAMPLE

def butter_bandpass (sp : Scipy K) (lowcut highcut fs order : Nat) : Coeffs K :=
  let nyq : K := (1 / 2) * fs
  let low := lowcut / nyq
  let high := highcut / nyq
  sp.butter order low high

/-- A row as the numbers it stands for. -/
def values (row : List SAMPLE) : List K := row.map fun x => (x.toInt : K)

def butter_bandpass_filter (sp : Scipy K) : Bandpass := fun lowcut highcut fs order =>
  { run := fun row =>
      (lfilter (butter_bandpass sp lowcut highcut fs order) (values row)).map sp.astype
    length_run := by simp [values] }

/-- One call of `filter_audio` per chunk, the results one after the other. -/
def streamed (B : Bandpass) (sample_rate : Nat) (chunks : List (List SAMPLE)) :
    Except PyError (List SAMPLE) := do
  let outputs ← chunks.mapM fun c => filter_audio B c (c.length / 2) 2 4 sample_rate
  return outputs.flatten

/-- One call of `filter_audio` on the whole stream. -/
def whole (B : Bandpass) (sample_rate : Nat) (chunks : List (List SAMPLE)) :
    Except PyError (List SAMPLE) :=
  filter_audio B chunks.flatten (chunks.flatten.length / 2) 2 4 sample_rate

theorem frames_of_even {xs : List SAMPLE} (h : 2 ∣ xs.length) :
    xs.length = xs.length / 2 * 2 := (Nat.div_mul_cancel h).symm

theorem even_flatten {chunks : List (List SAMPLE)} (h : ∀ c ∈ chunks, 2 ∣ c.length) :
    2 ∣ chunks.flatten.length := by
  rw [List.length_flatten]
  refine List.dvd_sum ?_
  intro n hn
  obtain ⟨c, hc, rfl⟩ := List.mem_map.mp hn
  exact h c hc

theorem streamed_ok (B : Bandpass) (sample_rate : Nat) {chunks : List (List SAMPLE)}
    (h : ∀ c ∈ chunks, 2 ∣ c.length) :
    streamed B sample_rate chunks =
      .ok ((chunks.map (stereo (B 50 500 sample_rate 2))).flatten) := by
  have hmap : (chunks.mapM fun c => filter_audio B c (c.length / 2) 2 4 sample_rate) =
      .ok (chunks.map (stereo (B 50 500 sample_rate 2))) := by
    induction chunks with
    | nil => rfl
    | cons c cs ih =>
      rw [List.mapM_cons, ih fun c' hc' => h c' (by simp [hc']),
        filter_audio_ok B sample_rate (frames_of_even (h c (by simp))) (.inr (.inr rfl))]
      rfl
  rw [streamed, hmap]
  rfl

theorem whole_ok (B : Bandpass) (sample_rate : Nat) {chunks : List (List SAMPLE)}
    (h : ∀ c ∈ chunks, 2 ∣ c.length) :
    whole B sample_rate chunks = .ok (stereo (B 50 500 sample_rate 2) chunks.flatten) :=
  filter_audio_ok B sample_rate (frames_of_even (even_flatten h)) (.inr (.inr rfl))

theorem stereo_nil (F : RowFilter) : stereo F [] = [] :=
  List.eq_nil_of_length_eq_zero (by rw [stereo_length F (by simp)]; rfl)

/-- A row filter that respects a cut of the row makes `stereo` respect a cut between frames. -/
theorem stereo_append (F : RowFilter) {xs : List SAMPLE} (ys : List SAMPLE) (h : 2 ∣ xs.length)
    (hF : ∀ us vs, F.run (us ++ vs) = F.run us ++ F.run vs) :
    stereo F (xs ++ ys) = stereo F xs ++ stereo F ys := by
  simp only [stereo, channel_append _ ys h, hF]
  exact interleave_append (rows_length F xs)

theorem stereo_flatten (F : RowFilter) {chunks : List (List SAMPLE)}
    (h : ∀ c ∈ chunks, 2 ∣ c.length) (hF : ∀ us vs, F.run (us ++ vs) = F.run us ++ F.run vs) :
    stereo F chunks.flatten = (chunks.map (stereo F)).flatten := by
  induction chunks with
  | nil => exact stereo_nil F
  | cons c cs ih =>
    rw [List.flatten_cons, stereo_append F _ (h c (by simp)) hF,
      ih fun c' hc' => h c' (by simp [hc'])]
    rfl

/-- Chunk by chunk, and then each channel from the chunks' channels. -/
theorem map_stereo_flatten (F : RowFilter) (chunks : List (List SAMPLE)) :
    (chunks.map (stereo F)).flatten =
      interleave (chunks.flatMap fun c => F.run (channel 2 0 c))
        (chunks.flatMap fun c => F.run (channel 2 1 c)) := by
  induction chunks with
  | nil => rfl
  | cons c cs ih =>
    rw [List.map_cons, List.flatten_cons, ih, List.flatMap_cons, List.flatMap_cons,
      interleave_append (rows_length F c)]
    rfl

section Causal

variable (sp : Scipy K) (lowcut highcut fs order : Nat)

/-- What is filtered first does not depend on what comes after. -/
theorem filter_prefix (us vs : List SAMPLE) :
    (butter_bandpass_filter sp lowcut highcut fs order).run us <+:
      (butter_bandpass_filter sp lowcut highcut fs order).run (us ++ vs) := by
  simp only [butter_bandpass_filter, values, List.map_append, lfilter_append]
  exact List.prefix_append _ _

theorem filter_append (h : Memoryless (butter_bandpass sp lowcut highcut fs order))
    (us vs : List SAMPLE) :
    (butter_bandpass_filter sp lowcut highcut fs order).run (us ++ vs) =
      (butter_bandpass_filter sp lowcut highcut fs order).run us ++
        (butter_bandpass_filter sp lowcut highcut fs order).run vs := by
  simp only [butter_bandpass_filter, values, List.map_append, (lfilter_cut_iff _).mpr h]

/-- The output for the first frames does not depend on what comes after them. -/
theorem stereo_prefix {xs : List SAMPLE} (ys : List SAMPLE) (h : 2 ∣ xs.length) :
    stereo (butter_bandpass_filter sp lowcut highcut fs order) xs <+:
      stereo (butter_bandpass_filter sp lowcut highcut fs order) (xs ++ ys) := by
  obtain ⟨r₀, h₀⟩ := filter_prefix sp lowcut highcut fs order (channel 2 0 xs) (channel 2 0 ys)
  obtain ⟨r₁, h₁⟩ := filter_prefix sp lowcut highcut fs order (channel 2 1 xs) (channel 2 1 ys)
  simp only [stereo, channel_append _ ys h, ← h₀, ← h₁]
  rw [interleave_append (rows_length _ xs)]
  exact List.prefix_append _ _

end Causal

/-- For 32-bit streams too, a cut never shows exactly when the filter is memoryless. -/
theorem values_cut_iff (c : Coeffs K) :
    (∀ us vs : List SAMPLE, lfilter c (values (us ++ vs)) =
      lfilter c (values us) ++ lfilter c (values vs)) ↔ Memoryless c := by
  constructor
  · intro h
    refine memoryless_of_impulse ?_
    intro n
    have hn := h [1] (List.replicate n 0)
    have h1 : (1 : Int32).toInt = 1 := by decide
    have h0 : (0 : Int32).toInt = 0 := by decide
    simpa only [values, List.map_append, List.map_cons, List.map_nil, List.map_replicate, h1, h0,
      Int.cast_one, Int.cast_zero] using hn
  · intro h us vs
    rw [values, List.map_append, (lfilter_cut_iff c).mpr h]
    rfl

/-- **Streaming through the band-pass.** For every stereo stream, every cutting of it and every
filter, streaming gives per channel the chunks filtered from rest, one after the other; it
agrees with one call on the whole stream as far as the first chunk goes; and it is that call's
result when the filter is memoryless. The filter values agree for every stream and every cut
only then. -/
theorem streaming_restarts (sp : Scipy K) (sample_rate : Nat) (chunks : List (List SAMPLE))
    (h : ∀ c ∈ chunks, 2 ∣ c.length) :
    streamed (butter_bandpass_filter sp) sample_rate chunks = .ok (interleave
      (chunks.flatMap fun c => (lfilter (butter_bandpass sp 50 500 sample_rate 2)
        (values (channel 2 0 c))).map sp.astype)
      (chunks.flatMap fun c => (lfilter (butter_bandpass sp 50 500 sample_rate 2)
        (values (channel 2 1 c))).map sp.astype)) ∧
    (∀ first rest, chunks = first :: rest → ∃ out₁ out,
      streamed (butter_bandpass_filter sp) sample_rate [first] = .ok out₁ ∧
      whole (butter_bandpass_filter sp) sample_rate chunks = .ok out ∧ out₁ <+: out) ∧
    (Memoryless (butter_bandpass sp 50 500 sample_rate 2) →
      streamed (butter_bandpass_filter sp) sample_rate chunks =
        whole (butter_bandpass_filter sp) sample_rate chunks) ∧
    ((∀ us vs : List SAMPLE, lfilter (butter_bandpass sp 50 500 sample_rate 2) (values (us ++ vs)) =
        lfilter (butter_bandpass sp 50 500 sample_rate 2) (values us) ++
          lfilter (butter_bandpass sp 50 500 sample_rate 2) (values vs)) ↔
      Memoryless (butter_bandpass sp 50 500 sample_rate 2)) := by
  refine ⟨?_, ?_, ?_, values_cut_iff _⟩
  · rw [streamed_ok _ _ h, map_stereo_flatten]
    rfl
  · intro first rest heq
    cases heq
    have hfirst : 2 ∣ first.length := h first (by simp)
    have hone : ∀ c ∈ [first], 2 ∣ c.length := by
      intro c hc
      rw [List.mem_singleton.mp hc]
      exact hfirst
    refine ⟨_, _, streamed_ok _ sample_rate hone, whole_ok _ sample_rate h, ?_⟩
    rw [List.map_singleton, List.flatten_singleton, List.flatten_cons]
    exact stereo_prefix sp 50 500 sample_rate 2 _ hfirst
  · intro hm
    rw [streamed_ok _ _ h, whole_ok _ _ h,
      stereo_flatten _ h (filter_append sp 50 500 sample_rate 2 hm)]

/-- The integrator `y[n] = x[n] + y[n-1]`. -/
def integrator : Scipy ℚ := ⟨fun _ _ _ => ⟨[1], [-1]⟩, int32OfRat⟩

theorem streaming_restarts_integrator :
    (∀ c ∈ [[(1 : SAMPLE), 2], [0, 0]], 2 ∣ c.length) ∧
    (∃ out₁ out, streamed (butter_bandpass_filter integrator) 48000 [[1, 2]] = .ok out₁ ∧
      whole (butter_bandpass_filter integrator) 48000 [[1, 2], [0, 0]] = .ok out ∧
      out₁ <+: out) :=
  ⟨by decide, (streaming_restarts integrator 48000 [[1, 2], [0, 0]] (by decide)).2.1
    [1, 2] [[0, 0]] rfl⟩

/-- Cut after its first frame, a stream through the integrator loses what the integrator holds. -/
theorem streaming_is_not_whole :
    streamed (butter_bandpass_filter integrator) 48000 [[1, 2], [0, 0]] = .ok [1, 2, 0, 0] ∧
    whole (butter_bandpass_filter integrator) 48000 [[1, 2], [0, 0]] = .ok [1, 2, 1, 2] ∧
    ¬ (∀ (sp : Scipy ℚ) (sample_rate : Nat) (chunks : List (List SAMPLE)),
      (∀ c ∈ chunks, 2 ∣ c.length) →
      streamed (butter_bandpass_filter sp) sample_rate chunks =
        whole (butter_bandpass_filter sp) sample_rate chunks) := by
  have h₁ : streamed (butter_bandpass_filter integrator) 48000 [[1, 2], [0, 0]] =
    .ok [1, 2, 0, 0] := by decide +kernel
  have h₂ : whole (butter_bandpass_filter integrator) 48000 [[1, 2], [0, 0]] =
    .ok [1, 2, 1, 2] := by decide +kernel
  refine ⟨h₁, h₂, ?_⟩
  intro h
  have heq := h integrator 48000 [[1, 2], [0, 0]] (by decide)
  rw [h₁, h₂] at heq
  exact absurd heq (by decide)

end FreqFilter
end SoundScreen
