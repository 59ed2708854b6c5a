import SoundScreen.AudioRecordPython.Progress
import SoundScreen.RealTime.FreqFilter

/-!
# SoundScreen.AudioRecordPython.EndToEnd

`audio_record_python.c` with `freqfilter.filter_audio` as its Python function.

`playCallback` releases the array the filter returned before it copies it out, so what it plays
is what the copy-out loop finds in released memory. `end_to_end`: the hand-over is right in every
run, and the stream played is the filtered stream exactly when nothing is written to that memory
before it is read.
-/

namespace SoundScreen
namespace AudioRecordPython

open FreqFilter Interleave

/-- The environment in which every call runs `freqfilter.filter_audio`. -/
def filtering (B : Bandpass) (inputBuffer : Nat → Nat → SAMPLE)
    (freed : Nat → Nat → Option SAMPLE) : Env where
  inputBuffer := inputBuffer
  callObject _ raw_data n_frames n_channels sample_width sample_rate :=
    (filter_audio B raw_data n_frames n_channels sample_width sample_rate).toOption
  freed := freed

/-- Chunks handed over so far, and chunks taken so far. -/
def State.given (s : State) : Nat := s.recorded + s.record.pc.posted

def State.taken (s : State) : Nat := s.played.length + s.play.pc.holding.posted

/-- In every run the `k`-th chunk played is `filter_audio` of the `k`-th chunk recorded. -/
def PlaysFiltered (B : Bandpass) (inputBuffer : Nat → Nat → SAMPLE)
    (freed : Nat → Nat → Option SAMPLE) : Prop :=
  ∀ sched s, run (filtering B inputBuffer freed) sched = some s →
    ∀ k out, s.played[k]? = some out →
      filter_audio B ((List.range BUFFER_SIZE).map (inputBuffer k)) FRAMES_PER_SAMPLE 2 4 48000 =
        .ok out

section

variable (B : Bandpass) (inputBuffer : Nat → Nat → SAMPLE) (freed : Nat → Nat → Option SAMPLE)

/-- The samples `filter_audio` returns for chunk `k`. -/
def filtered (k : Nat) : List SAMPLE :=
  stereo (B 50 500 48000 2) ((List.range BUFFER_SIZE).map (inputBuffer k))

theorem filtered_length (k : Nat) : (filtered B inputBuffer k).length = BUFFER_SIZE := by
  have hdvd : 2 ∣ ((List.range BUFFER_SIZE).map (inputBuffer k)).length := by
    rw [List.length_map, List.length_range]
    exact ⟨FRAMES_PER_SAMPLE, rfl⟩
  rw [filtered, stereo_length _ hdvd, List.length_map, List.length_range]

theorem filter_audio_chunk (k : Nat) :
    filter_audio B ((List.range BUFFER_SIZE).map (inputBuffer k)) FRAMES_PER_SAMPLE 2 4 48000 =
      .ok (filtered B inputBuffer k) := by
  have hlen : ((List.range BUFFER_SIZE).map (inputBuffer k)).length = FRAMES_PER_SAMPLE * 2 := by
    rw [List.length_map, List.length_range]
    rfl
  exact filter_audio_ok B 48000 hlen (.inr (.inr rfl))

theorem filtering_outcome (k : Nat) :
    (filtering B inputBuffer freed).outcome k = some (filtered B inputBuffer k) := by
  simp only [Env.outcome, Env.chunk, filtering, filter_audio_chunk, Except.toOption]

variable {B inputBuffer freed} {s : State}

/-- What the `k`-th chunk played is, sample by sample. -/
theorem played_loaded (h : Inv (filtering B inputBuffer freed) s) {k : Nat} {out : List SAMPLE}
    (hk : s.played[k]? = some out) : out = (List.range BUFFER_SIZE).map
      ((filtering B inputBuffer freed).loaded k (filtered B inputBuffer k)) := by
  obtain ⟨data, hdata, hout⟩ := h.played k out hk
  rw [filtering_outcome] at hdata
  cases hdata
  exact hout

theorem access_lt (h : Inv (filtering B inputBuffer freed) s) {i : Nat}
    (hi : s.play.access = some i) : ∃ data, s.play.pValue = some data ∧ i < data.length := by
  have hF : FRAMES_PER_SAMPLE = 4096 := rfl
  have hB : BUFFER_SIZE = 8192 := rfl
  have hcopied : ∀ n out, s.play.Copied (filtering B inputBuffer freed) s.played.length n out →
      n < BUFFER_SIZE → s.play.cell = i →
      ∃ data, s.play.pValue = some data ∧ i < data.length := by
    intro n out hc hn hcell
    obtain ⟨hidx, -, data, hval, hres, -⟩ := hc
    rw [filtering_outcome] at hres
    cases hres
    refine ⟨_, hval, ?_⟩
    rw [filtered_length, ← hcell, PlayFrame.cell, hidx, mask_of_lt hn]
    exact hn
  have hok := h.play_ok
  cases hpc : s.play.pc with
  | left j =>
    simp only [PlayFrame.Ok, hpc] at hok
    simp only [PlayFrame.access, hpc] at hi
    split at hi
    · exact hcopied _ _ hok.1 (by omega) (Option.some.inj hi)
    · cases hi
  | right j =>
    simp only [PlayFrame.Ok, hpc] at hok
    simp only [PlayFrame.access, hpc] at hi
    have hlt := hok.2
    exact hcopied _ _ hok.1 (by omega) (Option.some.inj hi)
  | _ => simp only [PlayFrame.access, hpc] at hi; cases hi

/-- The recorder stores nothing while `playCallback` is between `sem_wait` and `sem_post`. -/
theorem store_exclusive {env : Env} (h : Inv env s) {c : Nat} (hc : s.record.access = some c) :
    s.play.pc.holding.tokens = 0 := by
  have ht := h.tokens
  cases hpc : s.record.pc with
  | left j =>
    simp only [hpc, RecordPc.tokens] at ht
    omega
  | right j =>
    simp only [hpc, RecordPc.tokens] at ht
    omega
  | _ => simp only [RecordFrame.access, hpc] at hc; cases hc

theorem taken_given {env : Env} (h : Inv env s) :
    s.taken ≤ s.given ∧ s.given ≤ s.taken + 1 := by
  have ht := h.tokens
  have hp := h.posts
  simp only [State.taken, State.given]
  omega

/-- Every call number is reached in some run. -/
theorem exists_played (B : Bandpass) (inputBuffer : Nat → Nat → SAMPLE)
    (freed : Nat → Nat → Option SAMPLE) (k : Nat) :
    ∃ sched s, run (filtering B inputBuffer freed) sched = some s ∧
    k < s.played.length := by
  obtain ⟨sched, s, hs, hcase⟩ := exists_rounds (filtering B inputBuffer freed) (k + 2)
  rcases hcase with hb | ⟨ha, -⟩
  · exact ⟨sched, s, hs, hb.played⟩
  · have hok := (run_inv hs).play_ok
    simp only [PlayFrame.Ok, ha, filtering_outcome] at hok
    cases hok

/-- The `k`-th chunk played is the `k`-th filtered chunk exactly when each cell of the released
array holds its sample when it is read. -/
theorem played_filtered_iff (h : Inv (filtering B inputBuffer freed) s) {k : Nat}
    {out : List SAMPLE} (hk : s.played[k]? = some out) :
    filter_audio B ((List.range BUFFER_SIZE).map (inputBuffer k)) FRAMES_PER_SAMPLE 2 4 48000 =
      .ok out ↔
    ∀ i v, i < BUFFER_SIZE → freed k i = some v → (filtered B inputBuffer k)[i]? = some v := by
  have hloaded := played_loaded h hk
  constructor
  · intro hok i v hi hv
    rw [filter_audio_chunk, hloaded] at hok
    rw [Except.ok.inj hok, List.getElem?_map, List.getElem?_range hi]
    simp only [Option.map_some, Env.loaded, filtering, hv, Option.getD_some]
  · intro hcells
    rw [filter_audio_chunk, hloaded]
    refine congrArg Except.ok (List.ext_getElem? ?_)
    intro i
    by_cases hi : i < BUFFER_SIZE
    · have hget := List.getElem?_eq_getElem (show i < (filtered B inputBuffer k).length by
        rw [filtered_length]; exact hi)
      rw [List.getElem?_map, List.getElem?_range hi, Option.map_some]
      cases hv : freed k i with
      | none =>
        simp only [Env.loaded, filtering, hv, Option.getD_none, List.getD_eq_getElem?_getD, hget,
          Option.getD_some]
      | some v =>
        rw [hcells i v hi hv]
        simp only [Env.loaded, filtering, hv, Option.getD_some]
    · rw [List.getElem?_eq_none (by rw [filtered_length]; omega),
        List.getElem?_eq_none (by rw [List.length_map, List.length_range]; omega)]

theorem playsFiltered_iff_cells : PlaysFiltered B inputBuffer freed ↔
    ∀ k i v, i < BUFFER_SIZE → freed k i = some v → (filtered B inputBuffer k)[i]? = some v := by
  constructor
  · intro hall k
    obtain ⟨sched, s, hs, hlt⟩ := exists_played B inputBuffer freed k
    have hget := List.getElem?_eq_getElem hlt
    exact (played_filtered_iff (run_inv hs) hget).mp (hall sched s hs k _ hget)
  · intro hcells sched s hs k out hk
    exact (played_filtered_iff (run_inv hs) hk).mpr (hcells k)

end

/-- With the identity as filter the filtered chunk is the chunk. -/
theorem filtered_id (inputBuffer : Nat → Nat → SAMPLE) (k : Nat) :
    filtered (fun _ _ _ _ => RowFilter.id) inputBuffer k =
      (List.range BUFFER_SIZE).map (inputBuffer k) := by
  have hdvd : 2 ∣ ((List.range BUFFER_SIZE).map (inputBuffer k)).length := by
    rw [List.length_map, List.length_range]
    exact ⟨FRAMES_PER_SAMPLE, rfl⟩
  exact interleave_channel hdvd

/-- **`audio_record_python.c` end to end**, every call of `filter_audio` succeeding. In every run
the recorder stores nothing while `playCallback` is between its `sem_wait` and its `sem_post`, the
copy-out loop indexes inside the returned array, one chunk at most is in flight, and a chunk whose
released array nobody writes to is played as it was filtered. All chunks of all runs are played so
exactly when each cell that is overwritten before its load gets the sample it had; for every
stream and every band-pass exactly when no cell is overwritten. -/
theorem end_to_end (freed : Nat → Nat → Option SAMPLE) :
    (∀ B inputBuffer sched s, run (filtering B inputBuffer freed) sched = some s →
      (∀ c, s.record.access = some c → s.play.pc.holding.tokens = 0) ∧
      (∀ i, s.play.access = some i → ∃ data, s.play.pValue = some data ∧ i < data.length) ∧
      s.taken ≤ s.given ∧ s.given ≤ s.taken + 1 ∧
      ∀ k out, s.played[k]? = some out → (∀ i, i < BUFFER_SIZE → freed k i = none) →
        filter_audio B ((List.range BUFFER_SIZE).map (inputBuffer k)) FRAMES_PER_SAMPLE 2 4 48000 =
          .ok out) ∧
    (∀ B inputBuffer, PlaysFiltered B inputBuffer freed ↔
      ∀ k i v, i < BUFFER_SIZE → freed k i = some v →
        ∃ data, filter_audio B ((List.range BUFFER_SIZE).map (inputBuffer k)) FRAMES_PER_SAMPLE
          2 4 48000 = .ok data ∧ data[i]? = some v) ∧
    ((∀ B inputBuffer, PlaysFiltered B inputBuffer freed) ↔
      ∀ k i, i < BUFFER_SIZE → freed k i = none) := by
  refine ⟨?_, ?_, ?_, ?_⟩
  · intro B inputBuffer sched s hs
    have hinv := run_inv hs
    obtain ⟨hle, hlt⟩ := taken_given hinv
    refine ⟨fun c hc => store_exclusive hinv hc, fun i hi => access_lt hinv hi, hle, hlt, ?_⟩
    intro k out hk hfree
    refine (played_filtered_iff hinv hk).mpr ?_
    intro i v hi hv
    rw [hfree i hi] at hv
    cases hv
  · intro B inputBuffer
    rw [playsFiltered_iff_cells]
    constructor
    · intro hcells k i v hi hv
      exact ⟨_, filter_audio_chunk B inputBuffer k, hcells k i v hi hv⟩
    · intro hcells k i v hi hv
      obtain ⟨data, hdata, hget⟩ := hcells k i v hi hv
      rw [filter_audio_chunk] at hdata
      cases hdata
      exact hget
  · intro hall k i hi
    cases hv : freed k i with
    | none => rfl
    | some v =>
      -- a stream of samples that differ from the one found in the released memory
      have hcell := playsFiltered_iff_cells.mp (hall (fun _ _ _ _ => RowFilter.id)
        fun _ _ => v + 1) k i v hi hv
      rw [filtered_id, List.getElem?_map, List.getElem?_range hi] at hcell
      exact absurd (Option.some.inj hcell) (by simp)
  · intro hfree B inputBuffer
    refine playsFiltered_iff_cells.mpr ?_
    intro k i v hi hv
    rw [hfree k i hi] at hv
    cases hv

/-- An allocator that puts a 1 into the first word of the first block it gets back. -/
def reuse : Nat → Nat → Option SAMPLE
  | 0, 0 => some 1
  | _, _ => none

/-- Silence through the identity is played with a 1 in front. -/
theorem released_array_is_played :
    (∃ sched s out, run (filtering (fun _ _ _ _ => RowFilter.id) (fun _ _ => 0) reuse) sched =
        some s ∧ s.played[0]? = some out ∧ out[0]? = some 1 ∧
      (filtered (fun _ _ _ _ => RowFilter.id) (fun _ _ => 0) 0)[0]? = some 0) ∧
    ¬ (∀ B inputBuffer freed, PlaysFiltered B inputBuffer freed) := by
  have hB : 0 < BUFFER_SIZE := by decide
  have hzero : (filtered (fun _ _ _ _ => RowFilter.id) (fun _ _ => 0) 0)[0]? = some 0 := by
    rw [filtered_id, List.getElem?_map, List.getElem?_range hB]
    rfl
  constructor
  · obtain ⟨sched, s, hs, hlt⟩ :=
      exists_played (fun _ _ _ _ => RowFilter.id) (fun _ _ => 0) reuse 0
    have hget := List.getElem?_eq_getElem hlt
    refine ⟨sched, s, _, hs, hget, ?_, hzero⟩
    rw [played_loaded (run_inv hs) hget, List.getElem?_map, List.getElem?_range hB]
    rfl
  · intro hall
    have hcell := playsFiltered_iff_cells.mp (hall (fun _ _ _ _ => RowFilter.id) (fun _ _ => 0)
      reuse) 0 0 1 hB rfl
    rw [hzero] at hcell
    exact absurd (Option.some.inj hcell) (by decide)

end AudioRecordPython
end SoundScreen
