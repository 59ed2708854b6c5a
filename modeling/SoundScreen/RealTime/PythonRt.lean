import SoundScreen.Lib.Ramp
import SoundScreen.RealTime.FreqFilter

/-!
# SoundScreen.RealTime.PythonRt

`real_time_audio/python_rt`: the band-pass stream in Python alone (`freqfilter.py`, `eval.py`).
The first `300 / 4096` of every filtered chunk is replaced by a ramp from the last sample played
before it. The module's `interpret_wav` is the text of `FreqFilter.interpret_wav`.

* `filter_audio_ok`: one call patches both filtered channels and interleaves them.
* `playback_spliced`: the values carried in `oldvalue_r` and `oldvalue_l` are the last samples of
  channel 0 and of channel 1.
* `playback_seamless`: every chunk of every stream starts where the one before it ended.
-/

namespace SoundScreen
namespace PythonRt

open Interleave Ramp

/-! ## `freqfilter.py` -/

/-- `int(300/4096*n_frames)`. -/
def n_wrongdata (n_frames : Nat) : Nat := (truncate (300 / 4096 * n_frames)).toNat

/-- `row[0:n] = np.linspace(oldvalue, row[n+1], num=n)`. The index `n + 1` is read first, so the
slice has all its `n` cells. -/
def patch (row : List SAMPLE) (n : Nat) (oldvalue : SAMPLE) : Except PyError (List SAMPLE) := do
  let stop ← pyIndex row ((n : Int) + 1)
  return (linspace (oldvalue.toInt : ℚ) stop.toInt n).map int32OfRat ++ row.drop n

def filter_audio (butter_bandpass_filter : Bandpass) (raw_data : List SAMPLE)
    (n_frames n_channels sample_width sample_rate lowcut highcut : Nat)
    (oldvalue_r oldvalue_l : SAMPLE) : Except PyError (List SAMPLE) := do
  let channels ← FreqFilter.interpret_wav raw_data n_frames n_channels sample_width true
  let filtered := channels.toRows.map (butter_bandpass_filter lowcut highcut sample_rate 2).run
  let row0 ← patch (← pyIndex filtered 0) (n_wrongdata n_frames) oldvalue_r
  let row1 ← patch (← pyIndex filtered 1) (n_wrongdata n_frames) oldvalue_l
  return interleave row0 row1

/-! ## `eval.py` -/

/-- The module's globals. -/
structure Globals where
  oldvalue_r : SAMPLE := 0
  oldvalue_l : SAMPLE := 0

/-- What `record` puts into the queue for one `stream.read`: `np.array([recorded])`. -/
def mixed_wav (recorded : List SAMPLE) : List (List SAMPLE) := [recorded]

/-- One pass of the loop of `playback`: the globals after it and the samples it writes.
`argv1` is `sys.argv[1]`, `low` and `high` the cutoffs in `sys.argv[2]` and `sys.argv[3]`. -/
def playback_body (butter_bandpass_filter : Bandpass) (argv1 : String) (low high chunksize : Nat)
    (g : Globals) (separated : List (List SAMPLE)) : Except PyError (Globals × List SAMPLE) := do
  if argv1 = "f" then
    let filtered_audio ← filter_audio butter_bandpass_filter (← pyIndex separated 0) chunksize 2 4
      48000 low high g.oldvalue_r g.oldvalue_l
    let oldvalue_r ← pyIndex filtered_audio (-2)
    let oldvalue_l ← pyIndex filtered_audio (-1)
    return (⟨oldvalue_r, oldvalue_l⟩, filtered_audio)
  else if argv1 = "p" then
    return (g, ← pyIndex separated 0)
  else
    .error (.UnboundLocalError "local variable 'data' referenced before assignment")

/-- `playback` on the items it gets from the queue: what it writes to the stream, one list of
samples for each item. -/
def playback (butter_bandpass_filter : Bandpass) (argv1 : String) (low high chunksize : Nat)
    (g : Globals) : List (List (List SAMPLE)) → Except PyError (List (List SAMPLE))
  | [] => .ok []
  | separated :: input_signal => do
    let (g, data) ← playback_body butter_bandpass_filter argv1 low high chunksize g separated
    let written ← playback butter_bandpass_filter argv1 low high chunksize g input_signal
    return data :: written

/-! ## What a patch is for -/

/-- `out` is `row` with its first `n` samples replaced by a ramp that starts at `old` and leads
towards sample `n + 1` of `row`. -/
structure Spliced (old : SAMPLE) (n : Nat) (row out : List SAMPLE) : Prop where
  length_eq : out.length = row.length
  starts : out.head? = some old
  ramp : ∃ stop, row[n + 1]? = some stop ∧
    IsRamp old.toInt stop.toInt ((out.take n).map Int32.toInt)
  rest : out.drop n = row.drop n

/-- The last sample of channel `c` before chunk `k`, `start c` before the first. -/
def lastPlayed (start : Fin 2 → SAMPLE) (outs : List (List SAMPLE)) (c : Fin 2) :
    Nat → Option SAMPLE
  | 0 => some (start c)
  | k + 1 => outs[k]?.bind fun out => (channel 2 c out).getLast?

theorem n_wrongdata_eq (n_frames : Nat) : n_wrongdata n_frames = 300 * n_frames / 4096 := by
  have hq : (300 / 4096 * n_frames : ℚ) = ((300 * n_frames : Nat) : ℚ) / (4096 : Nat) := by
    push_cast
    ring
  have h := Rat.floor_natCast_div_natCast (300 * n_frames) 4096
  rw [n_wrongdata, truncate_of_nonneg (by positivity), hq, h]
  rfl

/-- Rounding keeps the ramp: the values between two samples do not wrap. -/
theorem linspace_toInt (old stop : SAMPLE) (n : Nat) :
    ((linspace (old.toInt : ℚ) stop.toInt n).map int32OfRat).map Int32.toInt =
      (linspace (old.toInt : ℚ) stop.toInt n).map truncate := by
  rw [List.map_map]
  refine List.map_congr_left ?_
  intro q hq
  rcases linspace_isRamp (old.toInt : ℚ) stop.toInt n with ⟨-, -, hmem⟩ | ⟨-, -, hmem⟩
  · exact toInt_int32OfRat (hmem q hq).1 (hmem q hq).2
  · exact toInt_int32OfRat (hmem q hq).1 (hmem q hq).2

theorem patch_eq {row : List SAMPLE} {n : Nat} {stop : SAMPLE} (old : SAMPLE)
    (h : row[n + 1]? = some stop) : patch row n old =
      .ok ((linspace (old.toInt : ℚ) stop.toInt n).map int32OfRat ++ row.drop n) := by
  have hstop := pyIndex_natCast h
  rw [patch, show (n : Int) + 1 = (n + 1 : Nat) from rfl, hstop]
  rfl

theorem patch_ok {row : List SAMPLE} {n : Nat} (old : SAMPLE) (h₀ : 0 < n)
    (h : n + 1 < row.length) : ∃ out, patch row n old = .ok out ∧ Spliced old n row out := by
  have hget := List.getElem?_eq_getElem h
  have hlen : ((linspace (old.toInt : ℚ) row[n + 1].toInt n).map int32OfRat).length = n := by simp
  refine ⟨_, patch_eq old hget, { length_eq := ?_, starts := ?_, ramp := ?_, rest := ?_ }⟩
  · rw [List.length_append, hlen, List.length_drop]
    omega
  · rw [List.head?_append, List.head?_map, linspace_head? _ _ h₀, Option.map_some,
      int32OfRat_toInt]
    rfl
  · have hramp := (linspace_isRamp (old.toInt : ℚ) row[n + 1].toInt n).map truncate_mono
    rw [truncate_intCast, truncate_intCast] at hramp
    refine ⟨row[n + 1], hget, ?_⟩
    rw [List.take_left' hlen, linspace_toInt]
    exact hramp
  · rw [List.drop_left' hlen]

/-- The interleaved output ends with the last samples of its two channels. -/
theorem pyIndex_interleave {xs ys : List SAMPLE} {x y : SAMPLE} (h : xs.length = ys.length)
    (hx : xs.getLast? = some x) (hy : ys.getLast? = some y) :
    pyIndex (interleave xs ys) (-2) = .ok x ∧ pyIndex (interleave xs ys) (-1) = .ok y := by
  have hpos : 0 < xs.length := by
    cases xs with
    | nil => cases hx
    | cons a xs => exact Nat.succ_pos _
  have hlen := interleave_length h
  obtain ⟨h₀, h₁⟩ := interleave_getElem? h (xs.length - 1)
  rw [List.getLast?_eq_getElem?] at hx hy
  constructor
  · refine pyIndex_neg (i := 2) (by decide) (by omega) ?_
    rw [hlen, show 2 * xs.length - 2 = 2 * (xs.length - 1) by omega, h₀, hx]
  · refine pyIndex_neg (i := 1) (by decide) (by omega) ?_
    rw [hlen, show 2 * xs.length - 1 = 2 * (xs.length - 1) + 1 by omega, h₁, h, hy]

/-- One call splices each filtered channel to its own old value. -/
theorem filter_audio_ok (B : Bandpass) {xs : List SAMPLE} {n_frames : Nat}
    (sample_rate low high : Nat) (old : Fin 2 → SAMPLE) (hn : 1 ≤ 300 * n_frames / 4096)
    (hlen : xs.length = 2 * n_frames) : ∃ row0 row1,
      filter_audio B xs n_frames 2 4 sample_rate low high (old 0) (old 1) =
        .ok (interleave row0 row1) ∧
      Spliced (old 0) (300 * n_frames / 4096) ((B low high sample_rate 2).run (channel 2 0 xs))
        row0 ∧
      Spliced (old 1) (300 * n_frames / 4096) ((B low high sample_rate 2).run (channel 2 1 xs))
        row1 := by
  obtain ⟨m, hm, hrows⟩ := FreqFilter.interpret_wav_ok (hlen.trans (Nat.mul_comm _ _))
    (show 4 = 1 ∨ 4 = 2 ∨ 4 = 4 from .inr (.inr rfl))
  have hrow : ∀ c, 300 * n_frames / 4096 + 1 <
      ((B low high sample_rate 2).run (channel 2 c xs)).length := by
    intro c
    rw [RowFilter.length_run, channel_length, hlen]
    omega
  obtain ⟨row0, hp0, hs0⟩ := patch_ok (old 0) hn (hrow 0)
  obtain ⟨row1, hp1, hs1⟩ := patch_ok (old 1) hn (hrow 1)
  rw [← n_wrongdata_eq] at hp0 hp1
  have hidx : ∀ a b : List SAMPLE, pyIndex [a, b] 0 = .ok a ∧ pyIndex [a, b] 1 = .ok b :=
    fun _ _ => ⟨rfl, rfl⟩
  refine ⟨row0, row1, ?_, hs0, hs1⟩
  simp only [filter_audio, hm, bind, Except.bind, hrows, List.map_cons, List.map_nil, hidx, hp0,
    hp1]
  rfl

/-! ## The loop of `playback` -/

section Loop

variable (B : Bandpass) (low high n_frames : Nat)

/-- The globals, by the channel they are used for. -/
def Globals.old (g : Globals) (c : Fin 2) : SAMPLE := if c = 0 then g.oldvalue_r else g.oldvalue_l

/-- What one pass of the loop does to a chunk `xs` of whole frames: it writes `out` and leaves
the last samples of `out` in the globals. -/
structure Played (g g' : Globals) (xs out : List SAMPLE) : Prop where
  length_eq : out.length = 2 * n_frames
  spliced : ∀ c, Spliced (g.old c) (300 * n_frames / 4096)
    ((B low high 48000 2).run (channel 2 c xs)) (channel 2 c out)
  carried : ∀ c, (channel 2 c out).getLast? = some (g'.old c)

theorem playback_body_ok (g : Globals) {xs : List SAMPLE} (hn : 1 ≤ 300 * n_frames / 4096)
    (hlen : xs.length = 2 * n_frames) : ∃ g' out,
      playback_body B "f" low high n_frames g (mixed_wav xs) = .ok (g', out) ∧
      Played B low high n_frames g g' xs out := by
  obtain ⟨row0, row1, hok, hs0, hs1⟩ := filter_audio_ok B 48000 low high g.old hn hlen
  have hlen0 : row0.length = n_frames := by
    rw [hs0.length_eq, RowFilter.length_run, channel_length, hlen]
    omega
  have hrows : row0.length = row1.length := by
    rw [hs0.length_eq, hs1.length_eq, FreqFilter.rows_length]
  obtain ⟨x, hx⟩ : ∃ x, row0.getLast? = some x :=
    ⟨_, List.getLast?_eq_some_getLast (List.ne_nil_of_length_pos (by omega))⟩
  obtain ⟨y, hy⟩ : ∃ y, row1.getLast? = some y :=
    ⟨_, List.getLast?_eq_some_getLast (List.ne_nil_of_length_pos (by omega))⟩
  obtain ⟨hr, hl⟩ := pyIndex_interleave hrows hx hy
  have hc0 := channel_zero_interleave hrows
  have hc1 := channel_one_interleave hrows
  refine ⟨⟨x, y⟩, interleave row0 row1, ?_, ?_, ?_, ?_⟩
  · have hrec : pyIndex (mixed_wav xs) 0 = .ok xs := rfl
    have hg : g.oldvalue_r = g.old 0 ∧ g.oldvalue_l = g.old 1 := ⟨rfl, rfl⟩
    simp only [playback_body, if_true, hrec, hg, hok, hr, hl, bind, Except.bind]
    rfl
  · rw [interleave_length hrows, hlen0]
  · intro c
    match c with
    | 0 => rw [hc0]; exact hs0
    | 1 => rw [hc1]; exact hs1
  · intro c
    match c with
    | 0 => rw [hc0]; exact hx
    | 1 => rw [hc1]; exact hy

/-- The loop invariant, for a run from any globals: each chunk is spliced to the one before it. -/
theorem playback_spliced (hn : 1 ≤ 300 * n_frames / 4096) (chunks : List (List SAMPLE)) :
    ∀ g : Globals, (∀ xs ∈ chunks, xs.length = 2 * n_frames) →
    ∃ outs, playback B "f" low high n_frames g (chunks.map mixed_wav) = .ok outs ∧
      outs.length = chunks.length ∧
      ∀ k xs, chunks[k]? = some xs → ∃ out, outs[k]? = some out ∧ out.length = 2 * n_frames ∧
        ∀ c, ∃ old, lastPlayed g.old outs c k = some old ∧
          Spliced old (300 * n_frames / 4096) ((B low high 48000 2).run (channel 2 c xs))
            (channel 2 c out) := by
  induction chunks with
  | nil => exact fun _ _ => ⟨[], rfl, rfl, fun _ _ h => by cases h⟩
  | cons xs chunks ih =>
    intro g hlen
    obtain ⟨g', out, hbody, hplayed⟩ :=
      playback_body_ok B low high n_frames g hn (hlen xs List.mem_cons_self)
    obtain ⟨outs, hrun, houts, hall⟩ := ih g' fun ys hys => hlen ys (List.mem_cons_of_mem _ hys)
    refine ⟨out :: outs, ?_, by rw [List.length_cons, List.length_cons, houts], ?_⟩
    · simp only [List.map_cons, playback, hbody, hrun, bind, Except.bind]
      rfl
    intro k ys hk
    cases k with
    | zero =>
      cases hk
      exact ⟨out, rfl, hplayed.length_eq, fun c => ⟨g.old c, rfl, hplayed.spliced c⟩⟩
    | succ k =>
      obtain ⟨out', hout', hlen', hseam⟩ := hall k ys hk
      refine ⟨out', hout', hlen', ?_⟩
      intro c
      obtain ⟨old, hold, hspl⟩ := hseam c
      refine ⟨old, ?_, hspl⟩
      rw [← hold]
      cases k with
      | zero => exact hplayed.carried c
      | succ k => rfl

end Loop

/-- **The seams of the patched stream.** In mode `f`, for every sequence of chunks of `n_frames`
stereo frames and every band-pass: in each channel of each chunk the first
`300 * n_frames / 4096` samples are a ramp from the last sample played before (0 at the start)
towards sample `300 * n_frames / 4096 + 1` of the filtered channel, and the rest is the filtered
channel. -/
theorem playback_seamless (B : Bandpass) (low high n_frames : Nat)
    (hn : 1 ≤ 300 * n_frames / 4096) (chunks : List (List SAMPLE))
    (hlen : ∀ xs ∈ chunks, xs.length = 2 * n_frames) :
    ∃ outs, playback B "f" low high n_frames {} (chunks.map mixed_wav) = .ok outs ∧
      outs.length = chunks.length ∧
      ∀ k xs, chunks[k]? = some xs → ∃ out, outs[k]? = some out ∧ out.length = 2 * n_frames ∧
        ∀ c, ∃ old, lastPlayed (fun _ => 0) outs c k = some old ∧
          Spliced old (300 * n_frames / 4096) ((B low high 48000 2).run (channel 2 c xs))
            (channel 2 c out) := by
  have hstart : Globals.old {} = fun _ => 0 := by
    funext c
    match c with
    | 0 => rfl
    | 1 => rfl
  have hrun := playback_spliced B low high n_frames hn chunks {} hlen
  rwa [hstart] at hrun

/-- A filter that holds its rows at 7. -/
def sevens : RowFilter := ⟨fun xs => List.replicate xs.length 7, fun _ => List.length_replicate⟩

theorem playback_seamless_sevens :
    ∃ outs, playback (fun _ _ _ _ => sevens) "f" 50 500 28 {}
        ([List.replicate 56 0, List.replicate 56 0].map mixed_wav) = .ok outs ∧
      ∀ c, ∃ old, lastPlayed (fun _ => 0) outs c 1 = some old ∧ ∃ out, outs[1]? = some out ∧
        (channel 2 c out).head? = some old := by
  obtain ⟨outs, hrun, -, hall⟩ := playback_seamless (fun _ _ _ _ => sevens) 50 500 28 (by decide)
    [List.replicate 56 0, List.replicate 56 0] (by decide)
  refine ⟨outs, hrun, ?_⟩
  intro c
  obtain ⟨out, hout, -, hseam⟩ := hall 1 _ rfl
  obtain ⟨old, hold, hspl⟩ := hseam c
  exact ⟨old, hold, out, hout, hspl.starts⟩

end PythonRt
end SoundScreen
