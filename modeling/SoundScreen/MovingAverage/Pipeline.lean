import SoundScreen.Lib.Pipeline
import SoundScreen.MovingAverage.FilterAudio

/-!
# SoundScreen.MovingAverage.Pipeline

`filter/eval.py`: `record`, `process` and `playback` as three threads with a queue between each
two. A pass of a thread's loop is cut where it takes an item from its queue.

* `process_fails`: the call `process` makes fails on every chunk `record` enqueues, since it asks
  for one channel where the chunk has two.
* `sizes_kept`: with a filter that keeps the sizes of the chunks the threads would keep the stream.
* `keepsStream_iff`: as it is, the stream is kept in the runs that record nothing.
-/

namespace SoundScreen
namespace MovingAverage

def g_CHUNKSIZE : Nat := 1024

/-- What `record` reads at once: `g_CHUNKSIZE` frames of two channels. -/
abbrev Chunk := { recorded : List Int16 // recorded.length = g_CHUNKSIZE * 2 }

/-- `np.array([recorded])`. -/
def mixed_wav (chunk : Chunk) : List (List Int16) := [chunk.val]

/-- The call in `process`. `np.fromstring` reads the buffer of the array it is given. -/
def filtered_signal (b : Nat) (signal : List (List Int16)) :
    Except PyError (Σ d : DType, List d.Elem) :=
  let frames_per_buffer := g_CHUNKSIZE
  let channels := 1
  let sample_width := 2
  let sample_rate := 48000
  filter_audio b (tobytes .int16 signal.flatten) frames_per_buffer channels sample_width sample_rate

/-- `separated.astype(np.int16)`, the samples `playback` writes. -/
def played (separated : Σ d : DType, List d.Elem) : List Int16 :=
  separated.2.map fun x => Int16.ofInt (separated.1.value x)

/-- The threads: `record` is the source, `process` the worker and `playback` the sink. -/
abbrev State := Pipe Chunk (Σ d : DType, List d.Elem) PyError

def step (b : Nat) : Pipe.Act Chunk → State → Option State :=
  Pipe.step fun chunk => filtered_signal b (mixed_wav chunk)

/-- Each chunk recorded is filtered to as many samples, `process` is running, and when no chunk is
left in the queues or in a thread, what was played has the sizes of what was recorded. -/
structure KeepsStream (b : Nat) (s : State) : Prop where
  accepted : ∀ chunk ∈ s.sent, ∃ out, filtered_signal b (mixed_wav chunk) = .ok out ∧
    out.2.length = chunk.val.length
  running : s.failed = none
  sizes : s.Quiet →
    (s.received.map played).map List.length = s.sent.map fun chunk => chunk.val.length

theorem process_fails (b : Nat) (chunk : Chunk) :
    filtered_signal b (mixed_wav chunk) = .error (Mat.shapeError 2048 1024 1) := by
  have hlen : chunk.val.length = 2048 := chunk.property
  have hflat : (mixed_wav chunk).flatten = chunk.val := List.flatten_singleton
  have hshape : Mat.reshape chunk.val g_CHUNKSIZE 1 = .error (Mat.shapeError 2048 1024 1) := by
    rw [Mat.reshape, dif_neg (by rw [hlen]; decide), hlen]
    rfl
  have hread : interpret_wav (tobytes .int16 chunk.val) g_CHUNKSIZE 1 2 true =
      .error (Mat.shapeError 2048 1024 1) := by
    unfold interpret_wav
    rw [show dtype 2 = .ok .int16 from rfl]
    simp only [bind, Except.bind, fromstring_tobytes, if_true]
    rw [hshape]
  simp only [filtered_signal, filter_audio, hflat, hread, bind, Except.bind]

theorem process_ne_ok (b : Nat) (chunk : Chunk) (out : Σ d : DType, List d.Elem) :
    filtered_signal b (mixed_wav chunk) ≠ .ok out := by
  rw [process_fails]
  exact nofun

/-- The threads and queues do their part: with a filter that keeps the sizes of the chunks, what is
played has the sizes of what was recorded, in order. -/
theorem sizes_kept {filter : Chunk → Except PyError (Σ d : DType, List d.Elem)}
    (hfilter : ∀ chunk out, filter chunk = .ok out → out.2.length = chunk.val.length)
    {acts : List (Pipe.Act Chunk)} {s : State}
    (h : Sched.run (Pipe.step filter) acts {} = some s) (hq : s.Quiet) :
    (s.received.map played).map List.length = s.sent.map fun chunk => chunk.val.length := by
  have hresults := (Pipe.run_flow h).quiet hq
  generalize s.sent = sent, s.received = received at hresults ⊢
  induction hresults with
  | nil => rfl
  | cons hok _ ih => simp only [List.map_cons, ih, played, List.length_map, hfilter _ _ hok]

/-- **The stream is lost with the first chunk.** In every interleaving, after every step: the
stream is kept exactly if nothing has been recorded. Nothing is ever played, and `process` ends
with the error of the reshape. -/
theorem keepsStream_iff (b : Nat) (acts : List (Pipe.Act Chunk)) (s : State)
    (h : Sched.run (step b) acts {} = some s) :
    (KeepsStream b s ↔ s.sent = []) ∧ s.received = [] ∧
      ∀ e, s.failed = some e → e = Mat.shapeError 2048 1024 1 := by
  have hflow : Pipe.Flow (fun chunk => filtered_signal b (mixed_wav chunk)) s := Pipe.run_flow h
  refine ⟨⟨?_, ?_⟩, hflow.received_nil fun chunk _ out => process_ne_ok b chunk out, ?_⟩
  · intro hkeeps
    cases hsent : s.sent with
    | nil => rfl
    | cons chunk chunks =>
      obtain ⟨out, hok, -⟩ := hkeeps.accepted chunk (hsent ▸ List.mem_cons_self)
      exact absurd hok (process_ne_ok b chunk out)
  · intro hsent
    refine ⟨by simp [hsent], ?_, sizes_kept ?_ h⟩
    · cases hfailed : s.failed with
      | none => rfl
      | some e =>
        obtain ⟨chunk, hmem, -⟩ := hflow.failed hfailed
        simp [hsent] at hmem
    · intro chunk out hok
      exact absurd hok (process_ne_ok b chunk out)
  · intro e he
    obtain ⟨chunk, -, hfail⟩ := hflow.failed he
    cases (process_fails b chunk).symm.trans hfail
    rfl

/-- A chunk of silence. -/
def silence : Chunk := ⟨List.replicate (g_CHUNKSIZE * 2) 0, List.length_replicate⟩

/-- Before the first chunk has been read the stream is kept. -/
theorem keepsStream_iff_start : KeepsStream 64 {} :=
  (keepsStream_iff 64 [] {} rfl).1.mpr rfl

/-- `record` enqueues a chunk of silence, `process` takes it and ends. -/
theorem silence_ends_process : ∃ s, Sched.run (step 64) [.source silence, .worker, .worker] {} =
    some s ∧ s.failed = some (Mat.shapeError 2048 1024 1) ∧ ¬KeepsStream 64 s := by
  let taken : State := { sent := [silence], held := some silence }
  let s : State := { taken with failed := some (Mat.shapeError 2048 1024 1) }
  have htaken : Sched.run (step 64) [.source silence, .worker] {} = some taken := rfl
  have hlast : step 64 .worker taken = some s := by
    simp only [step, Pipe.step, Pipe.worker, process_fails, taken, s]
  have hrun := Sched.run_trans htaken (Sched.run_single hlast)
  exact ⟨s, hrun, rfl, fun hkeeps => nomatch hkeeps.running⟩

end MovingAverage
end SoundScreen
