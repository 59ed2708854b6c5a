import SoundScreen.Lib.Loop
import SoundScreen.RealTime.FreqFilter

/-!
# SoundScreen.RealTime.BpFilter

`real_time_audio/bp_filter.pyx` (called through `bandpass_filter.py`): the Cython band-pass back
end. It reshapes the recorded buffer to `(FRAMES_PER_SAMPLE, NUM_CHANNELS)` in Fortran order, so
its two rows are the two halves of the buffer, not its two channels (`filter_audio_ok`).

`backends_agree_iff`: it agrees with `freqfilter.filter_audio` for every row filter exactly on
the buffers whose halves are their channels.
-/

namespace SoundScreen
namespace BpFilter

open Interleave

def FRAMES_PER_SAMPLE : Nat := 1024
def NUM_CHANNELS : Nat := 2
def BUFFER_SIZE : Nat := FRAMES_PER_SAMPLE * NUM_CHANNELS
def SAMPLE_RATE : Nat := 48000

/-- `uint16_t` arithmetic wraps modulo `2^16`. -/
def u16 (n : Nat) : Nat := n % 2 ^ 16

/-- One pass of the loop of `interleave_channels`, on the buffer and `audio_idx`. -/
def interleave_body (channels : List (List SAMPLE)) (st : (Nat → SAMPLE) × Nat) (idx : Nat) :
    Except PyError ((Nat → SAMPLE) × Nat) := do
  let (audio, audio_idx) := st
  let left ← pyIndex (← pyIndex channels 0) idx
  let right ← pyIndex (← pyIndex channels 1) idx
  return (Function.update (Function.update audio audio_idx left) (audio_idx + 1) right,
    u16 (audio_idx + 2))

/-- `while idx < FRAMES_PER_SAMPLE`, `idx` from 0 in steps of 1; `np.empty` leaves `uninit` in
the buffer the loop fills. -/
def interleave_channels (uninit : Nat → SAMPLE) (channels : List (List SAMPLE)) :
    Except PyError (List SAMPLE) := do
  let (audio, _) ← (List.range FRAMES_PER_SAMPLE).foldlM (interleave_body channels) (uninit, 0)
  return (List.range BUFFER_SIZE).map audio

def filter_audio (butter_bandpass_filter : Bandpass) (uninit : Nat → SAMPLE)
    (recorded_samples : List SAMPLE) (cutoff_low cutoff_high : Nat) :
    Except PyError (List SAMPLE) := do
  let tmp ← Mat.reshapeF recorded_samples FRAMES_PER_SAMPLE NUM_CHANNELS
  let data := tmp.T
  let filtered := data.toRows.map (butter_bandpass_filter cutoff_low cutoff_high SAMPLE_RATE 2).run
  interleave_channels uninit filtered

theorem u16_of_lt {n : Nat} (h : n < 2 ^ 16) : u16 n = n := Nat.mod_eq_of_lt h

/-- The loop invariant: after `n` passes the first `n` frames are in the buffer. -/
theorem interleave_loop (uninit : Nat → SAMPLE) {ch0 ch1 : List SAMPLE}
    (h₀ : ch0.length = FRAMES_PER_SAMPLE) (h₁ : ch1.length = FRAMES_PER_SAMPLE) :
    ∀ n, n ≤ FRAMES_PER_SAMPLE → ∃ audio,
      (List.range n).foldlM (interleave_body [ch0, ch1]) (uninit, 0) = .ok (audio, 2 * n) ∧
      ∀ i, i < n → some (audio (2 * i)) = ch0[i]? ∧ some (audio (2 * i + 1)) = ch1[i]? := by
  have hF : FRAMES_PER_SAMPLE = 1024 := rfl
  intro n
  induction n with
  | zero => exact fun _ => ⟨uninit, rfl, fun i hi => absurd hi (Nat.not_lt_zero i)⟩
  | succ n ih =>
    intro hn
    obtain ⟨audio, hloop, hdone⟩ := ih (by omega)
    obtain ⟨left, hleft⟩ : ∃ x, ch0[n]? = some x := ⟨_, List.getElem?_eq_getElem (by omega)⟩
    obtain ⟨right, hright⟩ : ∃ x, ch1[n]? = some x := ⟨_, List.getElem?_eq_getElem (by omega)⟩
    have hrows : pyIndex [ch0, ch1] 0 = .ok ch0 ∧ pyIndex [ch0, ch1] 1 = .ok ch1 := ⟨rfl, rfl⟩
    refine ⟨Function.update (Function.update audio (2 * n) left) (2 * n + 1) right, ?_, ?_⟩
    · rw [Loop.foldlM_range_succ, hloop]
      simp only [bind, Except.bind, interleave_body, hrows, pyIndex_natCast hleft,
        pyIndex_natCast hright, u16_of_lt (by omega : 2 * n + 2 < 2 ^ 16)]
      rfl
    · intro i hi
      by_cases hin : i = n
      · rw [hin, Function.update_of_ne (by omega), Function.update_self, Function.update_self]
        exact ⟨hleft.symm, hright.symm⟩
      · rw [Function.update_of_ne (by omega), Function.update_of_ne (by omega),
          Function.update_of_ne (by omega), Function.update_of_ne (by omega)]
        exact hdone i (by omega)

/-- `interleave_channels` is the interleaving, whatever `np.empty` left in the buffer. -/
theorem interleave_channels_ok (uninit : Nat → SAMPLE) {ch0 ch1 : List SAMPLE}
    (h₀ : ch0.length = FRAMES_PER_SAMPLE) (h₁ : ch1.length = FRAMES_PER_SAMPLE) :
    interleave_channels uninit [ch0, ch1] = .ok (interleave ch0 ch1) := by
  obtain ⟨audio, hloop, hdone⟩ := interleave_loop uninit h₀ h₁ FRAMES_PER_SAMPLE le_rfl
  simp only [interleave_channels, hloop, bind, Except.bind]
  have hB : BUFFER_SIZE = 2 * FRAMES_PER_SAMPLE := rfl
  refine congrArg Except.ok (eq_interleave (h₀.trans h₁.symm) (by simp [h₀, hB]) ?_)
  intro i hi
  rw [List.getElem?_map, List.getElem?_map, List.getElem?_range (by omega),
    List.getElem?_range (by omega)]
  exact hdone i (by omega)

/-- The rows the Fortran order gives: the two halves of the buffer. -/
theorem reshapeF_halves {xs : List SAMPLE} (h : xs.length = FRAMES_PER_SAMPLE * NUM_CHANNELS) :
    ∃ m, Mat.reshapeF xs FRAMES_PER_SAMPLE NUM_CHANNELS = .ok m ∧
      m.T.toRows = [xs.take FRAMES_PER_SAMPLE, xs.drop FRAMES_PER_SAMPLE] := by
  refine ⟨_, dif_pos h, ?_⟩
  have hF : FRAMES_PER_SAMPLE * NUM_CHANNELS = FRAMES_PER_SAMPLE + FRAMES_PER_SAMPLE := rfl
  have hrow0 : (List.ofFn fun i : Fin FRAMES_PER_SAMPLE => xs.get ⟨i.val, by omega⟩) =
      xs.take FRAMES_PER_SAMPLE := by
    refine List.ext_getElem (by simp; omega) ?_
    intro i h₁ h₂
    simp
  have hrow1 : (List.ofFn fun i : Fin FRAMES_PER_SAMPLE =>
      xs.get ⟨i.val + FRAMES_PER_SAMPLE, by omega⟩) = xs.drop FRAMES_PER_SAMPLE := by
    refine List.ext_getElem (by simp; omega) ?_
    intro i h₁ h₂
    simp [Nat.add_comm]
  rw [← hrow0, ← hrow1]
  rfl

theorem filter_audio_ok (B : Bandpass) (uninit : Nat → SAMPLE) {xs : List SAMPLE}
    (h : xs.length = BUFFER_SIZE) (low high : Nat) :
    filter_audio B uninit xs low high =
      .ok (interleave ((B low high SAMPLE_RATE 2).run (xs.take FRAMES_PER_SAMPLE))
        ((B low high SAMPLE_RATE 2).run (xs.drop FRAMES_PER_SAMPLE))) := by
  have hB : BUFFER_SIZE = FRAMES_PER_SAMPLE + FRAMES_PER_SAMPLE := rfl
  obtain ⟨m, hm, hrows⟩ := reshapeF_halves h
  simp only [filter_audio, hm, bind, Except.bind, hrows, List.map_cons, List.map_nil]
  exact interleave_channels_ok uninit (by simp; omega) (by simp; omega)

/-- Both back ends return the same samples, sample `2 * i + c` being sample `i` of the filtered
channel `c`. -/
def BackendsAgree (uninit : Nat → SAMPLE) (low high sample_rate : Nat) (F : RowFilter)
    (xs : List SAMPLE) : Prop :=
  ∃ out, filter_audio (fun _ _ _ _ => F) uninit xs low high = .ok out ∧
    FreqFilter.filter_audio (fun _ _ _ _ => F) xs FRAMES_PER_SAMPLE 2 4 sample_rate = .ok out ∧
    out.length = BUFFER_SIZE ∧
    ∀ i, i < FRAMES_PER_SAMPLE → out[2 * i]? = (F.run (channel 2 0 xs))[i]? ∧
      out[2 * i + 1]? = (F.run (channel 2 1 xs))[i]?

/-- The first half of the buffer is its left channel, the second half its right channel. -/
def HalvesAreChannels (xs : List SAMPLE) : Prop :=
  ∀ i, i < FRAMES_PER_SAMPLE → xs[i]? = xs[2 * i]? ∧ xs[FRAMES_PER_SAMPLE + i]? = xs[2 * i + 1]?

theorem halvesAreChannels_iff {xs : List SAMPLE} (h : xs.length = BUFFER_SIZE) :
    HalvesAreChannels xs ↔ xs.take FRAMES_PER_SAMPLE = channel 2 0 xs ∧
      xs.drop FRAMES_PER_SAMPLE = channel 2 1 xs := by
  have hB : BUFFER_SIZE = 2048 := rfl
  have hF : FRAMES_PER_SAMPLE = 1024 := rfl
  constructor
  · intro hh
    constructor
    · refine eq_channel 0 (by rw [List.length_take]; omega) ?_
      intro i hi
      rw [List.length_take] at hi
      rw [List.getElem?_take_of_lt (by omega)]
      exact (hh i (by omega)).1
    · refine eq_channel 1 (by rw [List.length_drop]; omega) ?_
      intro i hi
      rw [List.length_drop] at hi
      rw [List.getElem?_drop]
      exact (hh i (by omega)).2
  · intro ⟨h₀, h₁⟩ i hi
    have e₀ := congrArg (·[i]?) h₀
    have e₁ := congrArg (·[i]?) h₁
    have hchan : ∀ c : Fin 2, (channel 2 c xs)[i]? = xs[2 * i + c]? :=
      fun c => channel_getElem? c (by omega)
    simp only [List.getElem?_take_of_lt hi, List.getElem?_drop, hchan] at e₀ e₁
    exact ⟨e₀, e₁⟩

/-- One row filter agrees in both back ends exactly when it gives the halves of the chunk the
rows of its channels. -/
theorem backendsAgree_iff_rows (uninit : Nat → SAMPLE) (low high sample_rate : Nat) (F : RowFilter)
    {xs : List SAMPLE} (h : xs.length = BUFFER_SIZE) :
    BackendsAgree uninit low high sample_rate F xs ↔
      F.run (xs.take FRAMES_PER_SAMPLE) = F.run (channel 2 0 xs) ∧
        F.run (xs.drop FRAMES_PER_SAMPLE) = F.run (channel 2 1 xs) := by
  have hB : BUFFER_SIZE = FRAMES_PER_SAMPLE + FRAMES_PER_SAMPLE := rfl
  have hfreq : FreqFilter.filter_audio (fun _ _ _ _ => F) xs FRAMES_PER_SAMPLE 2 4 sample_rate =
      .ok (FreqFilter.stereo F xs) :=
    FreqFilter.filter_audio_ok _ sample_rate h (.inr (.inr rfl))
  have hhalf : (F.run (xs.take FRAMES_PER_SAMPLE)).length =
      (F.run (xs.drop FRAMES_PER_SAMPLE)).length := by simp; omega
  constructor
  · rintro ⟨out, hbp, hfr, -, -⟩
    rw [filter_audio_ok _ uninit h] at hbp
    rw [hfreq] at hfr
    have heq := (Except.ok.inj hbp).trans (Except.ok.inj hfr).symm
    constructor
    · rw [← channel_zero_interleave hhalf, heq, FreqFilter.stereo,
        channel_zero_interleave (FreqFilter.rows_length F xs)]
    · rw [← channel_one_interleave hhalf, heq, FreqFilter.stereo,
        channel_one_interleave (FreqFilter.rows_length F xs)]
  · rintro ⟨h₀, h₁⟩
    refine ⟨FreqFilter.stereo F xs, ?_, hfreq, ?_,
      fun i _ => interleave_getElem? (FreqFilter.rows_length F xs) i⟩
    · rw [filter_audio_ok _ uninit h, h₀, h₁]
      rfl
    · rw [FreqFilter.stereo_length F (by rw [h]; decide), h]

/-- **The two band-pass back ends.** On a chunk of `BUFFER_SIZE` samples and for one row filter
they agree exactly when it gives the halves and the channels of the chunk the same rows; for
every row filter exactly when the halves are the channels. -/
theorem backends_agree_iff (uninit : Nat → SAMPLE) (low high sample_rate : Nat)
    (xs : List SAMPLE) (h : xs.length = BUFFER_SIZE) :
    (∀ F, BackendsAgree uninit low high sample_rate F xs ↔
      F.run (xs.take FRAMES_PER_SAMPLE) = F.run (channel 2 0 xs) ∧
        F.run (xs.drop FRAMES_PER_SAMPLE) = F.run (channel 2 1 xs)) ∧
    ((∀ F, BackendsAgree uninit low high sample_rate F xs) ↔ HalvesAreChannels xs) := by
  have hone := fun F => backendsAgree_iff_rows uninit low high sample_rate F h
  refine ⟨hone, ?_, ?_⟩
  · intro hall
    exact (halvesAreChannels_iff h).mpr ((hone RowFilter.id).mp (hall RowFilter.id))
  · intro hh F
    obtain ⟨h₀, h₁⟩ := (halvesAreChannels_iff h).mp hh
    exact (hone F).mpr ⟨by rw [h₀], by rw [h₁]⟩

theorem backends_agree_silence :
    (∀ F, BackendsAgree (fun _ => 0) 50 500 48000 F (List.replicate BUFFER_SIZE 0)) ↔
      HalvesAreChannels (List.replicate BUFFER_SIZE 0) :=
  (backends_agree_iff (fun _ => 0) 50 500 48000 _ (by simp)).2

/-- A chunk with one non-zero sample, the first of the right channel. -/
def rightClick : List SAMPLE := 0 :: 1 :: List.replicate 2046 0

theorem backends_disagree :
    ¬ BackendsAgree (fun _ => 0) 50 500 48000 RowFilter.id rightClick ∧
    ¬ (∀ (F : RowFilter) (xs : List SAMPLE), xs.length = BUFFER_SIZE →
      BackendsAgree (fun _ => 0) 50 500 48000 F xs) := by
  have hlen : rightClick.length = BUFFER_SIZE := by
    rw [rightClick, List.length_cons, List.length_cons, List.length_replicate]
    rfl
  have hnot : ¬ BackendsAgree (fun _ => 0) 50 500 48000 RowFilter.id rightClick := by
    intro hag
    have hrows := (backendsAgree_iff_rows _ _ _ _ RowFilter.id hlen).mp hag
    simp only [RowFilter.id_run] at hrows
    have hh := ((halvesAreChannels_iff hlen).mpr hrows 0 (by decide)).2
    have hr : rightClick[FRAMES_PER_SAMPLE + 0]? = some 0 := by
      rw [rightClick, show FRAMES_PER_SAMPLE + 0 = 1022 + 1 + 1 from rfl, List.getElem?_cons_succ,
        List.getElem?_cons_succ, List.getElem?_replicate, if_pos (by decide)]
    rw [hr, show rightClick[2 * 0 + 1]? = some 1 from rfl] at hh
    exact absurd hh (by decide)
  exact ⟨hnot, fun hall => hnot (hall RowFilter.id rightClick hlen)⟩

end BpFilter
end SoundScreen
