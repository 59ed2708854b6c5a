import Mathlib.Algebra.Field.Rat
import Mathlib.Data.List.Sections
import Mathlib.Data.Rat.Floor
import SoundScreen.Lib.Windows
import SoundScreen.Numpy

/-!
# SoundScreen.Separation.Preprocess

The random crops of `music-source-separation-py3/preprocess.py`, and the training batch made of
them. A waveform is the list of what it has along its last axis: of its samples with one
dimension, of its columns (`Fin channels → SAMPLE`) with two. So the two branches on `wav.ndim`
are the two instances of one definition. A function that draws gives the list of its outcomes.

`sr` and `duration` are of any type of numbers with a product and `int`, so that the rounding of
the product is left open.

* `sample_range_sound`: every crop is a window of the padded waveform.
* `sample_range_complete_iff`: when every window can be drawn.
* `get_random_wav_iff`: when a batch has all its waveforms.
-/

namespace SoundScreen
namespace Separation

open Windows

variable {R : Type} [Mul R] (int : R → Nat) {β : Type}

def pad_wav [Zero β] (wav : List β) (sr duration : R) : List β :=
  let n_samples := int (sr * duration)
  let pad_len := n_samples - wav.length
  wav ++ List.replicate pad_len 0

/-- The outcomes of `np.random.choice(range(stop), 1)[0]`. -/
def random_choice (stop : Nat) : List Nat := List.range stop

/-- `end` is `stop`. -/
def sample_range (wav : List β) (sr duration : R) : List (List β) :=
  let target_len := int (sr * duration)
  let wav_len := wav.length
  (random_choice (max 1 (wav_len - target_len))).map fun start =>
    let stop := start + target_len
    wav.extract start stop

/-! ## The crops -/

section Crops

variable {int} {wav : List β} {sr duration : R}

theorem mem_sample_range {w : List β} : w ∈ sample_range int wav sr duration ↔
    ∃ start, start < max 1 (wav.length - int (sr * duration)) ∧
      (wav.drop start).take (int (sr * duration)) = w := by
  simp only [sample_range, random_choice, List.mem_map, List.mem_range,
    List.extract_eq_take_drop, Nat.add_sub_cancel_left]

theorem sample_range_ne_nil : sample_range int wav sr duration ≠ [] := by
  have hmem : (wav.drop 0).take (int (sr * duration)) ∈ sample_range int wav sr duration :=
    mem_sample_range.mpr ⟨0, by omega, rfl⟩
  exact List.ne_nil_of_mem hmem

variable [Zero β]

theorem pad_wav_eq : pad_wav int wav sr duration = wav.rightpad (int (sr * duration)) 0 := rfl

theorem length_pad_wav :
    (pad_wav int wav sr duration).length = max (int (sr * duration)) wav.length :=
  List.length_rightpad

theorem pad_wav_of_le (h : int (sr * duration) ≤ wav.length) :
    pad_wav int wav sr duration = wav := by
  rw [pad_wav_eq, List.rightpad, Nat.sub_eq_zero_of_le h, List.replicate_zero, List.append_nil]

theorem sample_range_sound {w : List β}
    (h : w ∈ sample_range int (pad_wav int wav sr duration) sr duration) :
    IsWindow (int (sr * duration)) (pad_wav int wav sr duration) w := by
  obtain ⟨start, hstart, rfl⟩ := mem_sample_range.mp h
  rw [length_pad_wav] at hstart
  refine isWindow_of_add_le ?_
  rw [length_pad_wav]
  omega

/-- The crops of a waveform that is longer than the target are the windows of it without its last
sample. -/
theorem mem_sample_range_of_lt {w : List β} (hlt : int (sr * duration) < wav.length) :
    w ∈ sample_range int (pad_wav int wav sr duration) sr duration ↔
      IsWindow (int (sr * duration)) wav.dropLast w := by
  rw [pad_wav_of_le hlt.le, mem_sample_range, isWindow_dropLast_iff (by omega)]
  refine exists_congr fun start => and_congr_left' ?_
  omega

theorem mem_sample_range_of_le {w : List β} (hle : wav.length ≤ int (sr * duration)) :
    w ∈ sample_range int (pad_wav int wav sr duration) sr duration ↔
      w = pad_wav int wav sr duration := by
  have hlen : (pad_wav int wav sr duration).length = int (sr * duration) := by
    rw [length_pad_wav, max_eq_left hle]
  rw [mem_sample_range, hlen, Nat.sub_self, Nat.max_zero]
  constructor
  · rintro ⟨start, hstart, rfl⟩
    rw [Nat.lt_one_iff.mp hstart, List.drop_zero, ← hlen, List.take_length]
  · rintro rfl
    refine ⟨0, Nat.one_pos, ?_⟩
    rw [List.drop_zero, ← hlen, List.take_length]

end Crops

/-- **Random cropping.** The outcomes are all windows of the padded waveform exactly if the
waveform is not longer than the target, or its last window is also one of it without its last
sample: no draw starts at the last window. -/
theorem sample_range_complete_iff [Zero β] (wav : List β) (sr duration : R) :
    (∀ w, w ∈ sample_range int (pad_wav int wav sr duration) sr duration ↔
      IsWindow (int (sr * duration)) (wav.rightpad (int (sr * duration)) 0) w) ↔
    wav.length ≤ int (sr * duration) ∨
      wav.drop (wav.length - int (sr * duration)) <:+: wav.dropLast := by
  rw [← pad_wav_eq]
  rcases le_or_gt wav.length (int (sr * duration)) with hle | hlt
  · refine iff_of_true (fun w => ?_) (.inl hle)
    have hlen : int (sr * duration) = (pad_wav int wav sr duration).length := by
      rw [length_pad_wav, max_eq_left hle]
    rw [mem_sample_range_of_le hle]
    conv_rhs => rw [hlen]
    exact isWindow_length_iff.symm
  · have hpad : pad_wav int wav sr duration = wav := pad_wav_of_le hlt.le
    have hwindow := fun w : List β => isWindow_iff_dropLast_or (w := w) (by omega) hlt.le
    have hlast : (wav.drop (wav.length - int (sr * duration))).length = int (sr * duration) := by
      rw [List.length_drop]
      omega
    rw [or_iff_right (by omega)]
    constructor
    · intro h
      have hmem : wav.drop (wav.length - int (sr * duration)) ∈
          sample_range int (pad_wav int wav sr duration) sr duration := by
        rw [h, hpad, hwindow]
        exact .inr rfl
      exact ((mem_sample_range_of_lt hlt).mp hmem).2
    · intro h w
      rw [mem_sample_range_of_lt hlt, hpad, hwindow]
      refine ⟨.inl, ?_⟩
      rintro (hw | rfl)
      · exact hw
      · exact ⟨hlast, h⟩

/-- `int` of an exact product. -/
def int_rat (x : Rat) : Nat := Nat.floor x

/-- With crops of one sample, the second of two samples is never drawn. -/
theorem last_window_never_drawn :
    [2] ∉ sample_range int_rat (pad_wav int_rat [(1 : Rat), 2] 2 (1 / 2)) 2 (1 / 2) ∧
    IsWindow (int_rat (2 * (1 / 2))) ([(1 : Rat), 2].rightpad (int_rat (2 * (1 / 2))) 0) [2] ∧
    ¬∀ w, w ∈ sample_range int_rat (pad_wav int_rat [(1 : Rat), 2] 2 (1 / 2)) 2 (1 / 2) ↔
      IsWindow (int_rat (2 * (1 / 2))) ([(1 : Rat), 2].rightpad (int_rat (2 * (1 / 2))) 0) w := by
  have hdrawn :
      [2] ∉ sample_range int_rat (pad_wav int_rat [(1 : Rat), 2] 2 (1 / 2)) 2 (1 / 2) := by
    decide +kernel
  have hwindow : IsWindow (int_rat (2 * (1 / 2)))
      ([(1 : Rat), 2].rightpad (int_rat (2 * (1 / 2))) 0) [2] := by
    decide +kernel
  exact ⟨hdrawn, hwindow, fun h => hdrawn ((h [2]).mpr hwindow)⟩

/-! ## Training batches -/

/-- `mixed, noise, voice`: the rows of the three arrays. -/
structure Batch (α : Type) where
  mixed : List (List α)
  noise : List (List α)
  voice : List (List α)
  deriving DecidableEq

variable {α F : Type} [Field α] (load : F → R → List α)

/-- `librosa.to_mono`: the mean over the channels. -/
def to_mono : List (List α) → List α
  | [] => []
  | channel :: channels =>
    (channels.foldl (List.zipWith (· + ·)) channel).map fun sum => sum / (channels.length + 1 : Nat)

/-- The outcomes of `np.array(list(map(lambda f: ..., wavs)))`, with one draw for each file. -/
def random_crops (wavs : List F) (sec sr : R) : List (List (List α)) :=
  (wavs.map fun f => sample_range int (pad_wav int (load f sr) sr sec) sr sec).sections

/-- From the arrays `n` and `v` on. -/
def batch_of (n v : List (List α)) : Except PyError (Batch α) := do
  let noise := [← pyIndex n 0]
  let voice := [← pyIndex v 0]
  let n_v := [[← pyIndex n 0, ← pyIndex v 0]]
  let mixed := n_v.map to_mono
  return ⟨mixed, noise, voice⟩

/-- `filenames` is not used. -/
def get_random_wav (n_wavs v_wavs : List F) (sec sr : R) : List (Except PyError (Batch α)) :=
  (random_crops int load n_wavs sec sr).flatMap fun n =>
    (random_crops int load v_wavs sec sr).map fun v => batch_of n v

/-- The arrays have a row for each file, a window of its padded waveform, and `mixed` is the mean
of the other two. -/
structure KeepsPairs (n_wavs v_wavs : List F) (sec sr : R) (batch : Batch α) : Prop where
  noise : List.Forall₂ (fun row f =>
    IsWindow (int (sr * sec)) ((load f sr).rightpad (int (sr * sec)) 0) row) batch.noise n_wavs
  voice : List.Forall₂ (fun row f =>
    IsWindow (int (sr * sec)) ((load f sr).rightpad (int (sr * sec)) 0) row) batch.voice v_wavs
  mixed : batch.mixed = List.zipWith (List.zipWith fun n v => (n + v) / 2) batch.noise batch.voice

section Batches

variable {int load} {sec sr : R}

theorem random_crops_sound {wavs : List F} {rows : List (List α)}
    (h : rows ∈ random_crops int load wavs sec sr) :
    List.Forall₂ (fun row f =>
      IsWindow (int (sr * sec)) ((load f sr).rightpad (int (sr * sec)) 0) row) rows wavs := by
  have hdraw := List.mem_sections.mp h
  rw [List.forall₂_map_right_iff] at hdraw
  exact hdraw.imp fun row f hrow => sample_range_sound hrow

theorem random_crops_length {wavs : List F} {rows : List (List α)}
    (h : rows ∈ random_crops int load wavs sec sr) : rows.length = wavs.length :=
  (random_crops_sound h).length_eq

theorem random_crops_one {wavs : List F} {row : List α} {rows : List (List α)}
    (h : row :: rows ∈ random_crops int load wavs sec sr) (hone : wavs.length = 1) : rows = [] := by
  have hlen := random_crops_length h
  rw [List.length_cons] at hlen
  exact List.eq_nil_of_length_eq_zero (by omega)

theorem random_crops_ne_nil (wavs : List F) : random_crops int load wavs sec sr ≠ [] := by
  induction wavs with
  | nil => exact List.cons_ne_nil _ _
  | cons f wavs ih =>
    obtain ⟨rows, hrows⟩ := List.exists_mem_of_ne_nil _ ih
    have hne : sample_range int (pad_wav int (load f sr) sr sec) sr sec ≠ [] := sample_range_ne_nil
    obtain ⟨row, hrow⟩ := List.exists_mem_of_ne_nil _ hne
    have hmem : row :: rows ∈ random_crops int load (f :: wavs) sec sr :=
      List.mem_sections.mpr (.cons hrow (List.mem_sections.mp hrows))
    exact List.ne_nil_of_mem hmem

theorem batch_of_cons (n0 v0 : List α) (n v : List (List α)) :
    batch_of (n0 :: n) (v0 :: v) =
      .ok ⟨[List.zipWith (fun n v => (n + v) / 2) n0 v0], [n0], [v0]⟩ := by
  have hn : pyIndex (n0 :: n) 0 = .ok n0 := rfl
  have hv : pyIndex (v0 :: v) 0 = .ok v0 := rfl
  have hmono : to_mono [n0, v0] = List.zipWith (fun n v => (n + v) / 2) n0 v0 := by
    simp [to_mono, List.map_zipWith, one_add_one_eq_two]
  simp only [batch_of, hn, hv, bind, Except.bind, List.map_cons, List.map_nil, hmono]
  rfl

/-- The outcomes are batches of the first two files. -/
theorem mem_get_random_wav {n_wavs v_wavs : List F} {r : Except PyError (Batch α)}
    (hn : 0 < n_wavs.length) (hv : 0 < v_wavs.length) :
    r ∈ get_random_wav int load n_wavs v_wavs sec sr ↔
      ∃ n0 n v0 v, n0 :: n ∈ random_crops int load n_wavs sec sr ∧
        v0 :: v ∈ random_crops int load v_wavs sec sr ∧
        r = .ok ⟨[List.zipWith (fun n v => (n + v) / 2) n0 v0], [n0], [v0]⟩ := by
  simp only [get_random_wav, List.mem_flatMap, List.mem_map]
  constructor
  · rintro ⟨n, hnmem, v, hvmem, rfl⟩
    have hnlen := random_crops_length hnmem
    have hvlen := random_crops_length hvmem
    obtain ⟨n0, n, rfl⟩ := List.exists_cons_of_length_pos (hnlen ▸ hn)
    obtain ⟨v0, v, rfl⟩ := List.exists_cons_of_length_pos (hvlen ▸ hv)
    exact ⟨n0, n, v0, v, hnmem, hvmem, batch_of_cons n0 v0 n v⟩
  · rintro ⟨n0, n, v0, v, hnmem, hvmem, rfl⟩
    exact ⟨n0 :: n, hnmem, v0 :: v, hvmem, batch_of_cons n0 v0 n v⟩

theorem get_random_wav_ne_nil {n_wavs v_wavs : List F} :
    get_random_wav int load n_wavs v_wavs sec sr ≠ [] := by
  have hnoise : random_crops int load n_wavs sec sr ≠ [] := random_crops_ne_nil n_wavs
  have hvoice : random_crops int load v_wavs sec sr ≠ [] := random_crops_ne_nil v_wavs
  obtain ⟨n, hn⟩ := List.exists_mem_of_ne_nil _ hnoise
  obtain ⟨v, hv⟩ := List.exists_mem_of_ne_nil _ hvoice
  have hmem : batch_of n v ∈ get_random_wav int load n_wavs v_wavs sec sr :=
    List.mem_flatMap.mpr ⟨n, hn, List.mem_map.mpr ⟨v, hv, rfl⟩⟩
  exact List.ne_nil_of_mem hmem

end Batches

/-- **Training batches.** For as many noise files as voice files, and not none: every outcome has
a row for each pair exactly if there is one pair. -/
theorem get_random_wav_iff (n_wavs v_wavs : List F) (sec sr : R) (hpos : 0 < n_wavs.length)
    (hlen : v_wavs.length = n_wavs.length) :
    (∀ r ∈ get_random_wav int load n_wavs v_wavs sec sr,
      ∃ batch, r = .ok batch ∧ KeepsPairs int load n_wavs v_wavs sec sr batch) ↔
    n_wavs.length = 1 := by
  constructor
  · intro h
    have hne : get_random_wav int load n_wavs v_wavs sec sr ≠ [] := get_random_wav_ne_nil
    obtain ⟨r, hr⟩ := List.exists_mem_of_ne_nil _ hne
    obtain ⟨batch, hbatch, hkeeps⟩ := h r hr
    obtain ⟨n0, n, v0, v, -, -, rfl⟩ := (mem_get_random_wav hpos (by omega)).mp hr
    cases hbatch
    exact hkeeps.noise.length_eq.symm
  · intro hone r hr
    obtain ⟨n0, n, v0, v, hn, hv, rfl⟩ := (mem_get_random_wav (by omega) (by omega)).mp hr
    have hnoise := random_crops_sound hn
    have hvoice := random_crops_sound hv
    obtain rfl : n = [] := random_crops_one hn hone
    obtain rfl : v = [] := random_crops_one hv (by omega)
    exact ⟨_, rfl, ⟨hnoise, hvoice, rfl⟩⟩

/-- Files that are their samples. -/
def load_samples (f : List Rat) (_ : Rat) : List Rat := f

theorem get_random_wav_one_pair :
    KeepsPairs int_rat load_samples [[1, 2]] [[3]] 1 1 ⟨[[2]], [[1]], [[3]]⟩ := by
  have hrun : .ok ⟨[[2]], [[1]], [[3]]⟩ ∈
      get_random_wav int_rat load_samples [[1, 2]] [[3]] 1 1 := by
    decide +kernel
  have hkeeps := (get_random_wav_iff int_rat load_samples [[1, 2]] [[3]] 1 1 (by decide) rfl).mpr
    rfl
  obtain ⟨batch, hbatch, hpairs⟩ := hkeeps _ hrun
  cases hbatch
  exact hpairs

/-- Of two pairs the second is lost. -/
theorem second_pair_lost :
    get_random_wav int_rat load_samples [[1], [2]] [[3], [5]] 1 1 =
      [.ok ⟨[[2]], [[1]], [[3]]⟩] ∧
    ¬∀ r ∈ get_random_wav int_rat load_samples [[1], [2]] [[3], [5]] 1 1,
      ∃ batch, r = .ok batch ∧ KeepsPairs int_rat load_samples [[1], [2]] [[3], [5]] 1 1 batch := by
  have hrun : get_random_wav int_rat load_samples [[1], [2]] [[3], [5]] 1 1 =
      [.ok ⟨[[2]], [[1]], [[3]]⟩] := by
    decide +kernel
  refine ⟨hrun, ?_⟩
  rw [hrun]
  intro h
  obtain ⟨batch, hbatch, hkeeps⟩ := h _ List.mem_cons_self
  cases hbatch
  cases hkeeps.noise.length_eq

end Separation
end SoundScreen
