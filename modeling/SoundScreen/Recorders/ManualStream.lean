import Mathlib.Data.List.Forall2
import Mathlib.Data.Rat.Cast.Order
import Mathlib.Data.Rat.Floor
import SoundScreen.Lib.Blocks

/-!
# SoundScreen.Recorders.ManualStream

The loop of `real_time_audio/extra files/audio_manual_stream_read.h`, which stores what is said
between two pauses. A turn is given the block that is read, whether `avg` judges it loud, and the
time; every `realloc` succeeds, and `i` does not overflow. The set-up of PortAudio is left out.

* `run_stored`: what is handed to `storeFLAC`, for every sequence of blocks.
* `stored_iff`: when this is what has been said, and when that is what gets into the files.
-/

namespace SoundScreen
namespace Recorders
namespace ManualStream

def FRAMES_PER_BUFFER : Nat := 2048

def sizeof_float : Nat := 4

/-- A `float` in memory, `none` while its value is indeterminate. -/
abbrev Cell (α : Type) := Option α

/-- The fields of `AudioData` that change; `NULL` is `none`. -/
structure AudioData (α : Type) where
  size : Nat
  recordedSamples : Option (List (Cell α))

/-- `avg(snippet, FRAMES_PER_BUFFER) > 0.000550` is `talking`. -/
structure Block (α : Type) (channels : Nat) where
  snippet : Vector α (FRAMES_PER_BUFFER * channels)
  talking : Bool
  time : Int

/-- A call of `storeFLAC`. -/
structure Stored (α : Type) where
  fileName : String
  data : AudioData α

structure State (α : Type) where
  i : Nat
  data : AudioData α
  talking : Int
  stored : List (Stored α)

variable {α : Type} {channels : Nat}

/-! ## The source -/

def initAudioData : AudioData α := ⟨0, none⟩

def State.init : State α := ⟨0, initAudioData, 0, []⟩

/-- `sampleBlock.size`. -/
def sampleBlock_size (channels : Nat) : Nat := FRAMES_PER_BUFFER * sizeof_float * channels

def realloc (p : Option (List (Cell α))) (size : Nat) : List (Cell α) :=
  let cells := size / sizeof_float
  (p.getD []).take cells ++ List.replicate (cells - (p.getD []).length) none

/-- `memcpy((char*)dst + offset, src, ...)`. -/
def memcpy (dst : List (Cell α)) (offset : Nat) (src : List α) : List (Cell α) :=
  dst.take (offset / sizeof_float) ++ src.map some ++ dst.drop (offset / sizeof_float + src.length)

/-- `test >= 1.5 && test <= 10`. -/
def IsPause (test : Int) : Prop := (3 / 2 : ℚ) ≤ test ∧ (test : ℚ) ≤ 10

instance (test : Int) : Decidable (IsPause test) := inferInstanceAs (Decidable (_ ∧ _))

/-- One turn of the loop. A store leaves `i` as it is. -/
def step (s : State α) (b : Block α channels) : State α :=
  if b.talking then
    let i := s.i + 1
    let recordedSamples := realloc s.data.recordedSamples (sampleBlock_size channels * i)
    let size := sampleBlock_size channels * i
    let recordedSamples :=
      memcpy recordedSamples ((i - 1) * sampleBlock_size channels) b.snippet.toList
    { s with i := i, talking := b.time, data := ⟨size, some recordedSamples⟩ }
  else if IsPause (b.time - s.talking) then
    { i := s.i
      data := ⟨0, none⟩
      talking := 0
      stored := s.stored ++ [⟨s!"file:{s.i}.flac", s.data⟩] }
  else
    s

def run (blocks : List (Block α channels)) : State α := blocks.foldl step State.init

/-- The cells that `sf_writef_float` reads for `data->size / sizeof(float)` frames. -/
def storeFLAC (channels : Nat) (data : AudioData α) : List (Cell α) :=
  let frames := data.size / sizeof_float
  (List.range (frames * channels)).map fun k => ((data.recordedSamples.getD [])[k]?).join

/-! ## What should be stored -/

/-- The blocks judged loud between one store and the next. -/
def recordings (talking : Int) (loud : List (Block α channels)) :
    List (Block α channels) → List (List (Block α channels))
  | [] => []
  | b :: blocks =>
    if b.talking then recordings b.time (loud ++ [b]) blocks
    else if IsPause (b.time - talking) then loud :: recordings 0 [] blocks
    else recordings talking loud blocks

/-- The samples of blocks. -/
def samples (loud : List (Block α channels)) : List α := loud.flatMap fun b => b.snippet.toList

/-- The data are the samples of the blocks, with their size. -/
structure Whole (loud : List (Block α channels)) (data : AudioData α) : Prop where
  cells : data.recordedSamples.getD [] = (samples loud).map some
  size : data.size = sizeof_float * (samples loud).length

/-! ## What is stored -/

/-- The data after the blocks `loud`, when `old` blocks had been counted at the store before. -/
def held (old : Nat) (loud : List (Block α channels)) : AudioData α :=
  if loud = [] then ⟨0, none⟩
  else ⟨sampleBlock_size channels * (old + loud.length),
    some (List.replicate (FRAMES_PER_BUFFER * channels * old) none ++ (samples loud).map some)⟩

/-- The data of the recordings, one after the other. -/
def allHeld (old : Nat) : List (List (Block α channels)) → List (AudioData α)
  | [] => []
  | loud :: rest => held old loud :: allHeld (old + loud.length) rest

theorem length_samples (loud : List (Block α channels)) :
    (samples loud).length = FRAMES_PER_BUFFER * channels * loud.length := by
  have hblock : ∀ b : Block α channels,
      b.snippet.toList.length = FRAMES_PER_BUFFER * channels :=
    fun b => b.snippet.length_toList
  rw [samples, Blocks.length_flatMap hblock, Nat.mul_comm]

theorem sampleBlock_size_mul (k : Nat) :
    sampleBlock_size channels * k / sizeof_float = FRAMES_PER_BUFFER * channels * k := by
  have hmul : sampleBlock_size channels * k =
      sizeof_float * (FRAMES_PER_BUFFER * channels * k) := by
    simp only [sampleBlock_size, sizeof_float]
    ring
  rw [hmul, Nat.mul_div_cancel_left _ (by decide)]

/-- The new block is behind the cells there were, and cells that have not been written. -/
theorem memcpy_realloc {p : Option (List (Cell α))} {i : Nat} {src : List α}
    (hp : (p.getD []).length ≤ FRAMES_PER_BUFFER * channels * i)
    (hsrc : src.length = FRAMES_PER_BUFFER * channels) :
    memcpy (realloc p (sampleBlock_size channels * (i + 1))) (i * sampleBlock_size channels) src =
      (p.getD []).rightpad (FRAMES_PER_BUFFER * channels * i) none ++ src.map some := by
  generalize hcells : p.getD [] = cells at hp ⊢
  have hsize : sampleBlock_size channels * (i + 1) / sizeof_float =
      FRAMES_PER_BUFFER * channels * (i + 1) := sampleBlock_size_mul (i + 1)
  have hoffset : i * sampleBlock_size channels / sizeof_float =
      FRAMES_PER_BUFFER * channels * i := by
    rw [Nat.mul_comm, sampleBlock_size_mul]
  generalize FRAMES_PER_BUFFER * channels = n at hp hsrc hsize hoffset ⊢
  have hrealloc : realloc p (sampleBlock_size channels * (i + 1)) =
      cells.rightpad (n * i) none ++ List.replicate n none := by
    simp only [realloc, hcells, hsize]
    rw [List.take_of_length_le (by rw [Nat.mul_succ]; omega), List.rightpad, List.append_assoc,
      List.replicate_append_replicate, Nat.mul_succ]
    congr 2
    omega
  have hpad : (cells.rightpad (n * i) none).length = n * i := by
    rw [List.length_rightpad, max_eq_left hp]
  rw [memcpy, hrealloc, hoffset, List.take_left' hpad, List.drop_of_length_le, List.append_nil]
  rw [List.length_append, hpad, List.length_replicate, hsrc]

theorem held_cells (old : Nat) (loud : List (Block α channels)) :
    (((held old loud).recordedSamples.getD []).length ≤
      FRAMES_PER_BUFFER * channels * (old + loud.length)) ∧
    ((held old loud).recordedSamples.getD []).rightpad
        (FRAMES_PER_BUFFER * channels * (old + loud.length)) none =
      List.replicate (FRAMES_PER_BUFFER * channels * old) none ++ (samples loud).map some := by
  unfold held
  by_cases hloud : loud = []
  · rw [if_pos hloud, hloud]
    exact ⟨Nat.zero_le _, (List.append_nil _).symm⟩
  · have hlen : (List.replicate (FRAMES_PER_BUFFER * channels * old) (none : Cell α) ++
        (samples loud).map some).length = FRAMES_PER_BUFFER * channels * (old + loud.length) := by
      rw [List.length_append, List.length_replicate, List.length_map, length_samples, Nat.mul_add]
    rw [if_neg hloud, Option.getD_some]
    refine ⟨Nat.le_of_eq hlen, ?_⟩
    rw [List.rightpad, hlen, Nat.sub_self, List.replicate_zero, List.append_nil]

theorem step_talking {s : State α} {b : Block α channels} {old : Nat}
    {loud : List (Block α channels)} (hb : b.talking) (hi : s.i = old + loud.length)
    (hdata : s.data = held old loud) :
    step s b = ⟨old + (loud ++ [b]).length, held old (loud ++ [b]), b.time, s.stored⟩ := by
  obtain ⟨hle, hpad⟩ := held_cells old loud
  have hlen : (loud ++ [b]).length = loud.length + 1 := List.length_append
  have hsamples : samples (loud ++ [b]) = samples loud ++ b.snippet.toList := by
    rw [samples, List.flatMap_append, List.flatMap_cons, List.flatMap_nil, List.append_nil]
    rfl
  rw [step, if_pos hb]
  simp only [hi, hdata, Nat.add_sub_cancel, memcpy_realloc hle b.snippet.length_toList, hpad]
  rw [held, if_neg (List.append_ne_nil_of_right_ne_nil _ (List.cons_ne_nil _ _)), hlen, hsamples,
    List.map_append, List.append_assoc, Nat.add_assoc]

theorem step_pause {s : State α} {b : Block α channels} (hb : ¬b.talking)
    (hpause : IsPause (b.time - s.talking)) :
    step s b = ⟨s.i, ⟨0, none⟩, 0, s.stored ++ [⟨s!"file:{s.i}.flac", s.data⟩]⟩ := by
  rw [step, if_neg hb, if_pos hpause]

theorem step_quiet {s : State α} {b : Block α channels} (hb : ¬b.talking)
    (hpause : ¬IsPause (b.time - s.talking)) : step s b = s := by
  rw [step, if_neg hb, if_neg hpause]

/-- What is handed to `storeFLAC` from a state on. -/
theorem foldl_stored (blocks : List (Block α channels)) {s : State α} {old : Nat}
    {loud : List (Block α channels)} (hi : s.i = old + loud.length)
    (hdata : s.data = held old loud) :
    (blocks.foldl step s).stored.map Stored.data =
      s.stored.map Stored.data ++ allHeld old (recordings s.talking loud blocks) := by
  induction blocks generalizing s old loud with
  | nil => exact (List.append_nil _).symm
  | cons b blocks ih =>
    rw [List.foldl_cons, recordings]
    by_cases hb : b.talking
    · rw [step_talking hb hi hdata, if_pos hb, ih rfl rfl]
    · rw [if_neg hb]
      by_cases hpause : IsPause (b.time - s.talking)
      · have hstep := step_pause hb hpause
        have hi' : (step s b).i = old + loud.length + ([] : List (Block α channels)).length := by
          rw [hstep]
          exact hi
        have hdata' : (step s b).data =
            held (old + loud.length) ([] : List (Block α channels)) := by
          rw [hstep]
          rfl
        rw [ih hi' hdata', if_pos hpause, hstep, List.map_append, List.append_assoc, allHeld,
          ← hdata]
        rfl
      · rw [step_quiet hb hpause, if_neg hpause, ih hi hdata]

theorem run_stored (blocks : List (Block α channels)) :
    (run blocks).stored.map Stored.data = allHeld 0 (recordings 0 [] blocks) :=
  foldl_stored blocks rfl rfl

/-! ## When it is what should be stored -/

theorem frames_pos (h : channels ≠ 0) : 0 < FRAMES_PER_BUFFER * channels :=
  Nat.mul_pos (by decide) (Nat.pos_of_ne_zero h)

theorem held_size (old : Nat) {loud : List (Block α channels)} (h : loud ≠ []) :
    (held old loud).size / sizeof_float = FRAMES_PER_BUFFER * channels * (old + loud.length) := by
  rw [held, if_neg h]
  exact sampleBlock_size_mul _

theorem whole_held_iff {old : Nat} {loud : List (Block α channels)} :
    Whole loud (held old loud) ↔ channels = 0 ∨ loud = [] ∨ old = 0 := by
  by_cases hloud : loud = []
  · subst hloud
    exact iff_of_true ⟨rfl, rfl⟩ (.inr (.inl rfl))
  · constructor
    · intro h
      have hcells := congrArg List.length h.cells
      rw [held, if_neg hloud, Option.getD_some, List.length_append, List.length_replicate] at hcells
      have hzero : FRAMES_PER_BUFFER * channels * old = 0 := by omega
      rcases Nat.mul_eq_zero.mp hzero with hn | hold
      · by_contra hne
        have hpos : 0 < FRAMES_PER_BUFFER * channels := frames_pos fun hc => hne (.inl hc)
        omega
      · exact .inr (.inr hold)
    · intro h
      have hzero : FRAMES_PER_BUFFER * channels * old = 0 := by
        rcases h with rfl | hnil | rfl
        · rw [Nat.mul_zero, Nat.zero_mul]
        · exact absurd hnil hloud
        · exact Nat.mul_zero _
      have hsize : sampleBlock_size channels * (old + loud.length) =
          sizeof_float * (FRAMES_PER_BUFFER * channels * old +
            FRAMES_PER_BUFFER * channels * loud.length) := by
        simp only [sampleBlock_size]
        ring
      rw [held, if_neg hloud]
      refine ⟨?_, ?_⟩
      · rw [hzero]
        rfl
      · rw [length_samples, hsize, hzero, Nat.zero_add]

theorem map_range_join (cells : List (Cell α)) :
    ((List.range cells.length).map fun k => (cells[k]?).join) = cells := by
  refine List.ext_getElem ?_ ?_
  · rw [List.length_map, List.length_range]
  · intro k hk hk'
    rw [List.getElem_map, List.getElem_range, List.getElem?_eq_getElem hk', Option.join_some]

/-- What gets into the file is the samples of the blocks. -/
def Written (loud : List (Block α channels)) (data : AudioData α) : Prop :=
  storeFLAC channels data = (samples loud).map some

theorem length_storeFLAC (old : Nat) {loud : List (Block α channels)} (h : loud ≠ []) :
    (storeFLAC channels (held old loud)).length =
      FRAMES_PER_BUFFER * channels * ((old + loud.length) * channels) := by
  rw [storeFLAC, List.length_map, List.length_range, held_size old h, Nat.mul_assoc]

/-- A first recording that is mono is read cell by cell. -/
theorem written_mono {loud : List (Block α 1)} (h : loud ≠ []) : Written loud (held 0 loud) := by
  have hcells : (held 0 loud).recordedSamples.getD [] = (samples loud).map some := by
    rw [held, if_neg h, Nat.mul_zero]
    rfl
  have hframes :
      (held 0 loud).size / sizeof_float * 1 = ((samples loud).map some).length := by
    rw [held_size 0 h, List.length_map, length_samples, Nat.zero_add, Nat.mul_one]
  rw [Written, storeFLAC, hcells]
  simp only [hframes]
  exact map_range_join _

theorem written_held_iff {old : Nat} {loud : List (Block α channels)} :
    Written loud (held old loud) ↔ channels = 0 ∨ loud = [] ∨ old = 0 ∧ channels = 1 := by
  by_cases hloud : loud = []
  · subst hloud
    refine iff_of_true ?_ (.inr (.inl rfl))
    simp [Written, storeFLAC, held, samples]
  · have hlen := length_storeFLAC old hloud
    constructor
    · intro h
      have hlength := congrArg List.length h
      rw [hlen, List.length_map, length_samples] at hlength
      by_cases hzero : channels = 0
      · exact .inl hzero
      · have hpos := List.length_pos_of_ne_nil hloud
        have hcount := Nat.eq_of_mul_eq_mul_left (frames_pos hzero) hlength
        have hle : (old + loud.length) * 1 ≤ (old + loud.length) * channels :=
          Nat.mul_le_mul_left _ (Nat.pos_of_ne_zero hzero)
        have hold : old = 0 := by omega
        rw [hold, Nat.zero_add] at hcount
        have hone := Nat.eq_of_mul_eq_mul_left hpos (hcount.trans (Nat.mul_one _).symm)
        exact .inr (.inr ⟨hold, hone⟩)
    · rintro (rfl | hnil | ⟨rfl, rfl⟩)
      · have hnone : (samples loud).length = 0 := by
          rw [length_samples, Nat.mul_zero, Nat.zero_mul]
        rw [Nat.mul_zero, Nat.zero_mul] at hlen
        rw [Written, List.eq_nil_of_length_eq_zero hlen, List.eq_nil_of_length_eq_zero hnone]
        rfl
      · exact absurd hnil hloud
      · exact written_mono hloud

/-- Only data that were held when no block had been counted before can be right. -/
theorem allHeld_iff {P : List (Block α channels) → AudioData α → Prop} {zero one : Prop}
    (hP : ∀ old loud, P loud (held old loud) ↔ zero ∨ loud = [] ∨ old = 0 ∧ one)
    (old : Nat) (rest : List (List (Block α channels))) :
    List.Forall₂ P rest (allHeld old rest) ↔
      zero ∨ (∀ loud ∈ rest, loud = []) ∨
        old = 0 ∧ one ∧ (rest.filter fun loud => !loud.isEmpty).length ≤ 1 := by
  induction rest generalizing old with
  | nil => exact iff_of_true .nil (.inr (.inl fun loud h => absurd h List.not_mem_nil))
  | cons loud rest ih =>
    rw [allHeld, List.forall₂_cons, hP, ih, List.forall_mem_cons]
    by_cases hloud : loud = []
    · subst hloud
      simp
    · have hpos : 0 < loud.length := List.length_pos_of_ne_nil hloud
      have hempty : (∀ loud ∈ rest, loud = []) ↔
          (rest.filter fun loud => !loud.isEmpty).length = 0 := by
        rw [List.length_eq_zero_iff, List.filter_eq_nil_iff]
        simp
      have hcount : ((loud :: rest).filter fun loud => !loud.isEmpty).length =
          (rest.filter fun loud => !loud.isEmpty).length + 1 := by
        rw [List.filter_cons_of_pos, List.length_cons]
        simp [hloud]
      rw [hempty, hcount]
      constructor
      · rintro ⟨hz | hnil | ⟨hold, hone⟩, hz' | hzero | ⟨hnext, -⟩⟩
        · exact .inl hz
        · exact .inl hz
        · exact .inl hz
        · exact absurd hnil hloud
        · exact absurd hnil hloud
        · exact absurd hnil hloud
        · exact .inl hz'
        · exact .inr (.inr ⟨hold, hone, by omega⟩)
        · omega
      · rintro (hz | ⟨hnil, -⟩ | ⟨hold, hone, hle⟩)
        · exact ⟨.inl hz, .inl hz⟩
        · exact absurd hnil hloud
        · exact ⟨.inr (.inr ⟨hold, hone⟩), .inr (.inl (by omega))⟩

/-- The recordings with a loud block. -/
def said (blocks : List (Block α channels)) : List (List (Block α channels)) :=
  (recordings 0 [] blocks).filter fun loud => !loud.isEmpty

/-- **The stored recordings.** For every sequence of blocks: what is handed to `storeFLAC` is what
has been said exactly if one recording at most has a loud block, and what gets into the files if
that one is mono. With no channels there are no samples. -/
theorem stored_iff (blocks : List (Block α channels)) :
    (List.Forall₂ Whole (recordings 0 [] blocks) ((run blocks).stored.map Stored.data) ↔
      channels = 0 ∨ (said blocks).length ≤ 1) ∧
    (List.Forall₂ Written (recordings 0 [] blocks) ((run blocks).stored.map Stored.data) ↔
      channels = 0 ∨ said blocks = [] ∨ channels = 1 ∧ (said blocks).length ≤ 1) := by
  have hsaid : (∀ loud ∈ recordings 0 [] blocks, loud = []) ↔ said blocks = [] := by
    rw [said, List.filter_eq_nil_iff]
    simp
  have hwhole : ∀ (old : Nat) (loud : List (Block α channels)),
      Whole loud (held old loud) ↔ channels = 0 ∨ loud = [] ∨ old = 0 ∧ True := by
    intro old loud
    rw [whole_held_iff, and_true]
  rw [run_stored, allHeld_iff hwhole, allHeld_iff fun old loud => written_held_iff, hsaid]
  refine ⟨?_, ?_⟩
  · refine or_congr_right ?_
    constructor
    · rintro (hnil | ⟨-, -, hle⟩)
      · rw [hnil]
        exact Nat.zero_le 1
      · exact hle
    · exact fun hle => .inr ⟨rfl, trivial, hle⟩
  · rw [eq_self_iff_true, true_and]
    rfl

def block (value : Int) (talking : Bool) (time : Int) : Block Int 1 :=
  ⟨Vector.replicate 2048 value, talking, time⟩

/-- A word, a pause, another word and another pause. -/
def two_words : List (Block Int 1) :=
  [block 1 true 100, block 0 false 102, block 2 true 200, block 0 false 202]

/-- The second recording has the size of both, and starts with cells that have not been written. -/
theorem two_words_not_whole :
    recordings 0 [] two_words = [[block 1 true 100], [block 2 true 200]] ∧
    ((run two_words).stored.map Stored.data).map AudioData.size = [8192, 16384] ∧
    ((run two_words).stored.map Stored.data)[1]?.bind AudioData.recordedSamples =
      some (List.replicate 2048 none ++ List.replicate 2048 (some 2)) ∧
    ¬List.Forall₂ Whole (recordings 0 [] two_words) ((run two_words).stored.map Stored.data) := by
  have hpause : IsPause 2 := by
    unfold IsPause
    norm_num
  have hrec : recordings 0 [] two_words = [[block 1 true 100], [block 2 true 200]] := by
    simp [two_words, recordings, block, hpause]
  have hdata : (run two_words).stored.map Stored.data =
      [held 0 [block 1 true 100], held 1 [block 2 true 200]] := by
    rw [run_stored, hrec]
    rfl
  refine ⟨hrec, ?_, ?_, ?_⟩
  · rw [hdata]
    rfl
  · have hsamples : samples [block 2 true 200] = List.replicate 2048 2 := by
      rw [samples, List.flatMap_cons, List.flatMap_nil, List.append_nil]
      exact Vector.toList_replicate
    have hframes : FRAMES_PER_BUFFER * 1 * 1 = 2048 := rfl
    rw [hdata]
    change (held 1 [block 2 true 200]).recordedSamples = _
    rw [held, if_neg (List.cons_ne_nil _ _), hsamples, List.map_replicate, hframes]
  · rw [hdata, hrec]
    rintro (_ | ⟨-, _ | ⟨hsecond, -⟩⟩)
    rw [whole_held_iff] at hsecond
    simp at hsecond

end ManualStream
end Recorders
end SoundScreen
