import SoundScreen.CythonRealTime.RunningMean
import SoundScreen.Lib.Loop
import SoundScreen.MovingAverage.FilterAudio

/-!
# SoundScreen.CythonRealTime.DoubleBuffer

`cython_real_time/audio_helper_filter_optimization.pyx`: `recordCallback` stores a chunk and
filters it, `playCallback` plays the result. Bounds are not checked in the extension; here an
access outside an array is an error that says where.

* `record_rows`: the loop of `recordCallback` stores frame `i` in row `i` as long as there is one.
* `recordCallback_fails`: it counts rows up to `BUFFER_SIZE`, the number of samples.
* `playCallback_ok_iff`: `playCallback` needs `BUFFER_SIZE` samples.
* `double_buffer_fails`: what is left of the bounds, for every chunk and window.
-/

namespace SoundScreen
namespace AudioHelper

open Interleave MovingSum

def SAMPLE_RATE : Nat := 48000
def FRAMES_PER_SAMPLE : Nat := 530
abbrev NUM_CHANNELS : Nat := 2
def CUTOFF_FREQ : Nat := 400
def BUFFER_SIZE : Nat := FRAMES_PER_SAMPLE * NUM_CHANNELS

/-- The array `npRecordArr`. -/
abbrev Recorded := Fin FRAMES_PER_SAMPLE → Fin NUM_CHANNELS → SAMPLE

inductive Fault where
  | inputBuffer (index : Nat)
  | recordedSamples (row : Nat)
  | playbackSamples (index : Nat)
  | python (e : PyError)
  deriving DecidableEq, Repr

def load (fault : Nat → Fault) (xs : List SAMPLE) (i : Nat) : Except Fault SAMPLE :=
  match xs[i]? with
  | some x => .ok x
  | none => .error (fault i)

/-- `recordedSamples[i, c] = x`. -/
def store (recordedSamples : Recorded) (i : Nat) (c : Fin NUM_CHANNELS) (x : SAMPLE) :
    Except Fault Recorded :=
  if h : i < FRAMES_PER_SAMPLE then
    .ok (Function.update recordedSamples ⟨i, h⟩
      (Function.update (recordedSamples ⟨i, h⟩) c x))
  else
    .error (.recordedSamples i)

/-! ## The callbacks -/

/-- The window length in `filter_audio`. -/
def windowSize : UInt16 := UInt16.ofNat (MovingAverage.windowLength (CUTOFF_FREQ / SAMPLE_RATE))

example : windowSize = 53 := by decide +kernel

/-- `filter_audio`, for any window length. -/
def filter_audio (windowSize : UInt16) (recordedSamples : Recorded) :
    Except PyError (List SAMPLE) := do
  let tmp := Mat.T ⟨FRAMES_PER_SAMPLE, NUM_CHANNELS, recordedSamples⟩
  let means ← running_mean tmp windowSize
  return means.map int32OfRat

/-- The array and the position of `rptr`. -/
abbrev Recording := Recorded × Nat

def record_pass (inputBuffer : List SAMPLE) (s : Recording) (i : Nat) :
    Except Fault Recording := do
  let (recordedSamples, rptr) := s
  let left ← load .inputBuffer inputBuffer rptr
  let recordedSamples ← store recordedSamples i 0 left
  let right ← load .inputBuffer inputBuffer (rptr + 1)
  let recordedSamples ← store recordedSamples i 1 right
  return (recordedSamples, rptr + 2)

/-- The first `n` passes of `while i < BUFFER_SIZE`. -/
def record_passes (inputBuffer : List SAMPLE) (recordedSamples : Recorded) (n : Nat) :
    Except Fault Recording :=
  (List.range n).foldlM (record_pass inputBuffer) (recordedSamples, 0)

/-- `recordedSamples` and `playbackSamples` after the call. -/
def recordCallback (windowSize : UInt16) (inputBuffer : List SAMPLE)
    (recordedSamples : Recorded) : Except Fault (Recorded × List SAMPLE) := do
  let (recordedSamples, _) ← record_passes inputBuffer recordedSamples BUFFER_SIZE
  match filter_audio windowSize recordedSamples with
  | .ok playbackSamples => return (recordedSamples, playbackSamples)
  | .error e => .error (.python e)

def play_pass (playbackSamples outputBuffer : List SAMPLE) (i : Nat) :
    Except Fault (List SAMPLE) := do
  let left ← load .playbackSamples playbackSamples i
  let right ← load .playbackSamples playbackSamples (i + 1)
  return outputBuffer ++ [left, right]

/-- The first `n` passes of `while i < BUFFER_SIZE`, in steps of 2. -/
def play_passes (playbackSamples : List SAMPLE) (n : Nat) : Except Fault (List SAMPLE) :=
  (List.range' 0 n 2).foldlM (play_pass playbackSamples) []

/-- What is written to `outputBuffer`. -/
def playCallback (playbackSamples : List SAMPLE) : Except Fault (List SAMPLE) :=
  play_passes playbackSamples (BUFFER_SIZE / 2)

/-! ## The loops -/

theorem load_ok {fault : Nat → Fault} {xs : List SAMPLE} {i : Nat} {x : SAMPLE}
    (h : xs[i]? = some x) : load fault xs i = .ok x := by
  rw [load, h]

theorem load_error (fault : Nat → Fault) {xs : List SAMPLE} {i : Nat} (h : xs.length ≤ i) :
    load fault xs i = .error (fault i) := by
  rw [load, List.getElem?_eq_none h]

/-- The array after `n` frames of a chunk. -/
def stored (inputBuffer : List SAMPLE) (recordedSamples : Recorded) (n : Nat) : Recorded :=
  fun r c => if r.val < n then inputBuffer.getD (2 * r.val + c.val) 0 else recordedSamples r c

theorem record_passes_succ (inputBuffer : List SAMPLE) (recordedSamples : Recorded) (n : Nat) :
    record_passes inputBuffer recordedSamples (n + 1) =
      record_passes inputBuffer recordedSamples n >>= fun s => record_pass inputBuffer s n :=
  Loop.foldlM_range_succ (record_pass inputBuffer) (recordedSamples, 0) n

theorem stored_succ {inputBuffer : List SAMPLE} (recordedSamples : Recorded) {n : Nat}
    {left right : SAMPLE} (hn : n < FRAMES_PER_SAMPLE) (hl : inputBuffer[2 * n]? = some left)
    (hr : inputBuffer[2 * n + 1]? = some right) :
    (store (stored inputBuffer recordedSamples n) n 0 left >>= fun m => store m n 1 right) =
      .ok (stored inputBuffer recordedSamples (n + 1)) := by
  unfold store
  rw [dif_pos hn]
  simp only [bind, Except.bind, dif_pos hn]
  refine congrArg Except.ok (funext fun r => funext fun c => ?_)
  by_cases hrow : r = ⟨n, hn⟩
  · subst hrow
    match c with
    | 0 => simp [stored, hl, List.getD_eq_getElem?_getD]
    | 1 => simp [stored, hr, List.getD_eq_getElem?_getD]
  · have hval : r.val ≠ n := fun h => hrow (Fin.ext h)
    have hiff : r.val < n ↔ r.val < n + 1 := by omega
    simp only [Function.update_of_ne hrow, stored, hiff]

theorem stored_row {inputBuffer : List SAMPLE} (hlen : inputBuffer.length = BUFFER_SIZE)
    (recordedSamples : Recorded) (i : Fin FRAMES_PER_SAMPLE) (c : Fin NUM_CHANNELS) :
    inputBuffer[2 * i.val + c.val]? =
      some (stored inputBuffer recordedSamples FRAMES_PER_SAMPLE i c) := by
  have hc : c.val < 2 := c.isLt
  have hlt : 2 * i.val + c.val < inputBuffer.length := by
    rw [hlen, show BUFFER_SIZE = 2 * FRAMES_PER_SAMPLE from rfl]
    omega
  simp [stored, i.isLt, List.getD_eq_getElem?_getD, List.getElem?_eq_getElem hlt]

/-- As long as there are rows, frame `i` is stored in row `i`. -/
theorem record_rows {inputBuffer : List SAMPLE} (hlen : inputBuffer.length = BUFFER_SIZE)
    (recordedSamples : Recorded) {n : Nat} (hn : n ≤ FRAMES_PER_SAMPLE) :
    record_passes inputBuffer recordedSamples n =
      .ok (stored inputBuffer recordedSamples n, 2 * n) := by
  induction n with
  | zero =>
    have hzero : stored inputBuffer recordedSamples 0 = recordedSamples := by
      funext r c
      exact if_neg (Nat.not_lt_zero _)
    rw [hzero]
    rfl
  | succ n ih =>
    have hsize : BUFFER_SIZE = 2 * FRAMES_PER_SAMPLE := rfl
    have hl := List.getElem?_eq_getElem (show 2 * n < inputBuffer.length by omega)
    have hr := List.getElem?_eq_getElem (show 2 * n + 1 < inputBuffer.length by omega)
    have hstore := stored_succ recordedSamples hn hl hr
    rw [record_passes_succ, ih (by omega)]
    simp only [record_pass, bind, Except.bind, load_ok hl, load_ok hr] at hstore ⊢
    cases hfirst : store (stored inputBuffer recordedSamples n) n 0 inputBuffer[2 * n] with
    | error e => rw [hfirst] at hstore; cases hstore
    | ok m =>
      rw [hfirst] at hstore
      simp only [hstore]
      rfl

/-- The pass after the last row reads behind the chunk, and would store behind the array. -/
theorem recordCallback_fails (window : UInt16) {inputBuffer : List SAMPLE}
    (hlen : inputBuffer.length = BUFFER_SIZE) (recordedSamples : Recorded) :
    recordCallback window inputBuffer recordedSamples = .error (.inputBuffer BUFFER_SIZE) := by
  have hfault : ∀ n, record_passes inputBuffer recordedSamples (FRAMES_PER_SAMPLE + 1 + n) =
      .error (.inputBuffer BUFFER_SIZE) := by
    intro n
    induction n with
    | zero =>
      have hload : load .inputBuffer inputBuffer (2 * FRAMES_PER_SAMPLE) =
          .error (.inputBuffer BUFFER_SIZE) := load_error _ hlen.le
      rw [record_passes_succ, record_rows hlen recordedSamples le_rfl]
      simp only [record_pass, bind, Except.bind, hload]
    | succ n ih =>
      rw [← Nat.add_assoc, record_passes_succ, ih]
      rfl
  have hall := hfault (BUFFER_SIZE - (FRAMES_PER_SAMPLE + 1))
  rw [Nat.add_sub_cancel' (by decide)] at hall
  simp only [recordCallback, hall, bind, Except.bind]

theorem play_passes_succ (playbackSamples : List SAMPLE) (n : Nat) :
    play_passes playbackSamples (n + 1) =
      play_passes playbackSamples n >>= fun out => play_pass playbackSamples out (2 * n) := by
  unfold play_passes
  rw [List.range'_concat, List.foldlM_append]
  simp only [List.foldlM_cons, List.foldlM_nil, bind_pure, Nat.zero_add]

theorem play_take {playbackSamples : List SAMPLE} {n : Nat} (h : 2 * n ≤ playbackSamples.length) :
    play_passes playbackSamples n = .ok (playbackSamples.take (2 * n)) := by
  induction n with
  | zero => rfl
  | succ n ih =>
    have hl := List.getElem?_eq_getElem (show 2 * n < playbackSamples.length by omega)
    have hr := List.getElem?_eq_getElem (show 2 * n + 1 < playbackSamples.length by omega)
    have htake : playbackSamples.take (2 * (n + 1)) =
        playbackSamples.take (2 * n) ++ [playbackSamples[2 * n], playbackSamples[2 * n + 1]] := by
      rw [Nat.mul_succ, List.take_add, List.drop_eq_getElem_cons (by omega),
        List.drop_eq_getElem_cons (by omega)]
      rfl
    rw [play_passes_succ, ih (by omega), htake]
    simp only [play_pass, bind, Except.bind, load_ok hl, load_ok hr]
    rfl

/-- The last index read is `BUFFER_SIZE - 1`. -/
theorem playCallback_ok_iff (playbackSamples : List SAMPLE) :
    (∃ out, playCallback playbackSamples = .ok out) ↔ BUFFER_SIZE ≤ playbackSamples.length := by
  constructor
  · rintro ⟨out, hout⟩
    by_contra hshort
    have hload : load .playbackSamples playbackSamples (2 * 529 + 1) =
        .error (.playbackSamples (2 * 529 + 1)) := by
      refine load_error _ ?_
      have hsize : BUFFER_SIZE = 1060 := rfl
      omega
    have hlast : playCallback playbackSamples =
        play_passes playbackSamples 529 >>= fun out => play_pass playbackSamples out (2 * 529) :=
      play_passes_succ playbackSamples 529
    rw [hlast] at hout
    cases hpass : play_passes playbackSamples 529 with
    | error e => rw [hpass] at hout; cases hout
    | ok before =>
      rw [hpass] at hout
      simp only [play_pass, bind, Except.bind, hload] at hout
      split at hout <;> cases hout
  · intro hlen
    exact ⟨_, play_take hlen⟩

/-! ## The filtered chunk -/

/-- The flattened array is the left channel, then the right one. -/
theorem stored_ravel {inputBuffer : List SAMPLE} (hlen : inputBuffer.length = BUFFER_SIZE)
    (recordedSamples : Recorded) :
    (Mat.T ⟨FRAMES_PER_SAMPLE, NUM_CHANNELS,
      stored inputBuffer recordedSamples FRAMES_PER_SAMPLE⟩).ravel =
        channel 2 0 inputBuffer ++ channel 2 1 inputBuffer := by
  have hdiv : inputBuffer.length / 2 = FRAMES_PER_SAMPLE := by rw [hlen]; rfl
  have hrow : ∀ c : Fin 2, (List.ofFn fun r : Fin FRAMES_PER_SAMPLE =>
      stored inputBuffer recordedSamples FRAMES_PER_SAMPLE r c) = channel 2 c inputBuffer := by
    intro c
    refine eq_channel c (by rw [List.length_ofFn, hdiv]) ?_
    intro i hi
    rw [List.length_ofFn] at hi
    rw [List.getElem?_ofFn, dif_pos hi]
    exact (stored_row hlen recordedSamples ⟨i, hi⟩ c).symm
  have hflat : (Mat.T ⟨FRAMES_PER_SAMPLE, NUM_CHANNELS,
      stored inputBuffer recordedSamples FRAMES_PER_SAMPLE⟩).ravel =
        ([channel 2 0 inputBuffer, channel 2 1 inputBuffer] : List (List SAMPLE)).flatten := by
    rw [← hrow 0, ← hrow 1]
    rfl
  rw [hflat, List.flatten_cons, List.flatten_singleton]

theorem filter_audio_length {window : UInt16} (h₁ : 1 ≤ window.toNat)
    (recordedSamples : Recorded) : ∃ playback, filter_audio window recordedSamples = .ok playback ∧
      playback.length = BUFFER_SIZE + 1 - window.toNat := by
  have hlen : (Mat.T ⟨FRAMES_PER_SAMPLE, NUM_CHANNELS, recordedSamples⟩).ravel.length =
      BUFFER_SIZE := (Mat.ravel_length _).trans (Nat.mul_comm NUM_CHANNELS FRAMES_PER_SAMPLE)
  have hmean := MovingAverage.prefixMean_ok (b := 32) BitVec.toInt
    ((Mat.T ⟨FRAMES_PER_SAMPLE, NUM_CHANNELS, recordedSamples⟩).ravel.map Int32.toInt) h₁
  refine ⟨_, by simp only [filter_audio, running_mean, hmean, bind, Except.bind]; rfl, ?_⟩
  rw [List.length_map, List.length_map, List.length_range, List.length_map, hlen]

theorem filter_audio_one {window : UInt16} (h₁ : window.toNat = 1) (recordedSamples : Recorded) :
    filter_audio window recordedSamples =
      .ok (Mat.T ⟨FRAMES_PER_SAMPLE, NUM_CHANNELS, recordedSamples⟩).ravel := by
  generalize hxs : (Mat.T ⟨FRAMES_PER_SAMPLE, NUM_CHANNELS, recordedSamples⟩).ravel = xs
  have hmean := MovingAverage.prefixMean_ok (b := 32) BitVec.toInt (xs.map Int32.toInt)
    (show 0 < 1 by decide)
  simp only [filter_audio, running_mean, hxs, h₁, hmean, bind, Except.bind]
  refine congrArg Except.ok ?_
  rw [List.map_map, List.length_map, Nat.add_sub_cancel]
  refine List.ext_getElem? ?_
  intro i
  by_cases hi : i < xs.length
  · have hfits : (BitVec.ofInt 32 xs[i].toInt).toInt = xs[i].toInt :=
      BitVec.toInt_ofInt_eq_self (by decide) xs[i].le_toInt xs[i].toInt_lt
    rw [List.getElem?_map, List.getElem?_range hi, Option.map_some, Function.comp_apply,
      windowSum_one (by rwa [List.length_map]), List.getElem_map, hfits, Nat.cast_one, div_one,
      int32OfRat_toInt, List.getElem?_eq_getElem hi]
  · rw [List.getElem?_eq_none (by rw [List.length_map, List.length_range]; omega),
      List.getElem?_eq_none (by omega)]

/-! ## Both callbacks -/

/-- The mean of a channel over the window at position `j`, as a sample. -/
def average (window : UInt16) (xs : List SAMPLE) (j : Nat) : SAMPLE :=
  int32OfRat ((windowSum window.toNat (xs.map Int32.toInt) j : Int) / window.toNat : ℚ)

/-- A chunk is recorded and played inside the bounds: frame `i` is stored in row `i`, and each
frame played is an average of the left channel followed by one of the right channel. -/
def DoubleBuffer (window : UInt16) (inputBuffer : List SAMPLE) (recordedSamples : Recorded) :
    Prop :=
  ∃ recorded playback out,
    recordCallback window inputBuffer recordedSamples = .ok (recorded, playback) ∧
    (∀ i c, inputBuffer[2 * i.val + c.val]? = some (recorded i c)) ∧
    playCallback playback = .ok out ∧
    ∀ i, i < FRAMES_PER_SAMPLE →
      (∃ j, out[2 * i]? = some (average window (channel 2 0 inputBuffer) j)) ∧
      ∃ j, out[2 * i + 1]? = some (average window (channel 2 1 inputBuffer) j)

/-- **The bounds of the double buffer.** For every chunk of `FRAMES_PER_SAMPLE` stereo frames and
every window: `recordCallback` stores the frames in their rows and then goes on, behind the chunk
and the array. With the rows it has stored, `playCallback` stays inside the filtered chunk only for
windows of one sample, and then plays the left channel before the right one. -/
theorem double_buffer_fails (window : UInt16) (h₁ : 1 ≤ window.toNat) (inputBuffer : List SAMPLE)
    (hlen : inputBuffer.length = BUFFER_SIZE) (recordedSamples : Recorded) :
    ¬DoubleBuffer window inputBuffer recordedSamples ∧
    recordCallback window inputBuffer recordedSamples = .error (.inputBuffer BUFFER_SIZE) ∧
    ∃ rows playback,
      record_passes inputBuffer recordedSamples FRAMES_PER_SAMPLE = .ok (rows, BUFFER_SIZE) ∧
      (∀ i c, inputBuffer[2 * i.val + c.val]? = some (rows i c)) ∧
      filter_audio window rows = .ok playback ∧
      ((∃ out, playCallback playback = .ok out) ↔ window.toNat = 1) ∧
      (window.toNat = 1 → playback = channel 2 0 inputBuffer ++ channel 2 1 inputBuffer) := by
  have hfails := recordCallback_fails window hlen recordedSamples
  obtain ⟨playback, hplayback, hplen⟩ :=
    filter_audio_length h₁ (stored inputBuffer recordedSamples FRAMES_PER_SAMPLE)
  refine ⟨?_, hfails, _, playback, record_rows hlen recordedSamples le_rfl,
    stored_row hlen recordedSamples, hplayback, ?_, ?_⟩
  · rintro ⟨recorded, playback, out, hrecord, -⟩
    cases hfails.symm.trans hrecord
  · rw [playCallback_ok_iff, hplen]
    have hpos : 0 < BUFFER_SIZE := by decide
    omega
  · intro hone
    rw [filter_audio_one hone, stored_ravel hlen] at hplayback
    exact (Except.ok.inj hplayback).symm

/-- A chunk of silence, and the array as `main` sets it up. -/
def silence : List SAMPLE := List.replicate BUFFER_SIZE 0

theorem double_buffer_fails_silence :
    recordCallback 1 silence (fun _ _ => 0) = .error (.inputBuffer 1060) :=
  (double_buffer_fails 1 (by decide) silence List.length_replicate fun _ _ => 0).2.1

/-- The first chunk after the start, silent, with the window of the source. -/
theorem first_chunk_out_of_bounds : ¬DoubleBuffer windowSize silence fun _ _ => 0 := by
  rintro ⟨recorded, playback, out, hrecord, -⟩
  have hfails := recordCallback_fails windowSize (List.length_replicate : silence.length = _)
    fun _ _ => 0
  cases hfails.symm.trans hrecord

end AudioHelper
end SoundScreen
