import SoundScreen.Lib.Sched
import SoundScreen.Sample

/-!
# SoundScreen.AudioRecord.Callbacks

`real_time_audio/audio_record.c`: the two PortAudio callbacks as two threads over the shared
`paData` and the two semaphores. PortAudio runs each callback serially, so a thread is a `Frame`:
where the running call stands and its locals. One step is one shared action of the C text: read
the index, `sem_wait`, copy one sample, `sem_post`, store the index back.

The chunks handed to `recordCallback` are `inputBuffer k j`, sample `j` of call `k`; the chunk
written by the running `playCallback` is `outputBuffer`. `recorded` and `played` are history:
the number of `recordCallback` calls that returned and the output of every `playCallback` call
that returned.
-/

namespace SoundScreen
namespace AudioRecord

def FRAMES_PER_SAMPLE : Nat := 1024
def NUM_CHANNELS : Nat := 2
def BUFFER_SIZE : Nat := FRAMES_PER_SAMPLE * NUM_CHANNELS * 2

/-- The cells `main` allocates: `calloc(BUFFER_SIZE * 2, sizeof(SAMPLE))`. -/
def allocated : Nat := BUFFER_SIZE * 2

structure paData where
  recordIndex : Nat
  playIndex : Nat
  recordedSamples : Nat → SAMPLE

/-- Where a callback stands. `left i` is the loop test with counter `i`, followed by the first
copy of the body; `right i` is the second copy. -/
inductive Pc where
  | idle
  | wait
  | left (i : Nat)
  | right (i : Nat)
  | publish
  deriving DecidableEq, Repr

/-- Locals of a callback: `idx` is `widx` (`ridx`), `base` the offset of `wptr` (`rptr`) from
`recordedSamples`, `ptr` how far the pointer into the callback's own buffer has moved. -/
structure Frame where
  pc : Pc
  idx : Nat
  base : Nat
  ptr : Nat
  deriving DecidableEq, Repr

structure State where
  readDone : Nat
  writeDone : Nat
  data : paData
  record : Frame
  play : Frame
  outputBuffer : List SAMPLE
  recorded : Nat
  played : List (List SAMPLE)

namespace Frame

def ofIndex (index : Nat) : Frame := ⟨.wait, index, index, 0⟩

/-- `wptr[widx++ % BUFFER_SIZE]` (`rptr[ridx++ % BUFFER_SIZE]`), as an offset from
`recordedSamples`. -/
def cell (f : Frame) : Nat := f.base + f.idx % BUFFER_SIZE

def goto (f : Frame) (pc : Pc) : Frame := { f with pc := pc }

/-- One copy has been made: both post-increments, then on to `pc`. -/
def copied (f : Frame) (pc : Pc) : Frame :=
  { f with pc := pc, idx := u32 (f.idx + 1), ptr := f.ptr + 1 }

/-- The cell of `recordedSamples` the next move accesses, if it accesses one. -/
def access (framesPerBuffer : Nat) (f : Frame) : Option Nat :=
  match f.pc with
  | .left i => if i < framesPerBuffer then some f.cell else none
  | .right _ => some f.cell
  | _ => none

end Frame

def paData.store (d : paData) (cell : Nat) (v : SAMPLE) : paData :=
  { d with recordedSamples := Function.update d.recordedSamples cell v }

def recordCallback (framesPerBuffer : Nat) (inputBuffer : Nat → Nat → SAMPLE) (s : State) :
    Option State :=
  match s.record.pc with
  | .idle => some { s with record := Frame.ofIndex s.data.recordIndex }
  | .wait =>
    match s.readDone with
    | 0 => none
    | n + 1 => some { s with readDone := n, record := s.record.goto (.left 0) }
  | .left i =>
    if i < framesPerBuffer then
      some { s with
        data := s.data.store s.record.cell (inputBuffer s.recorded s.record.ptr)
        record := s.record.copied (.right i) }
    else
      some { s with writeDone := s.writeDone + 1, record := s.record.goto .publish }
  | .right i =>
    some { s with
      data := s.data.store s.record.cell (inputBuffer s.recorded s.record.ptr)
      record := s.record.copied (.left (u32 (i + 1))) }
  | .publish =>
    some { s with
      data := { s.data with recordIndex := s.record.idx % BUFFER_SIZE }
      record := s.record.goto .idle
      recorded := s.recorded + 1 }

def playCallback (framesPerBuffer : Nat) (s : State) : Option State :=
  match s.play.pc with
  | .idle => some { s with play := Frame.ofIndex s.data.playIndex, outputBuffer := [] }
  | .wait =>
    match s.writeDone with
    | 0 => none
    | n + 1 => some { s with writeDone := n, play := s.play.goto (.left 0) }
  | .left i =>
    if i < framesPerBuffer then
      some { s with
        outputBuffer := s.outputBuffer ++ [s.data.recordedSamples s.play.cell]
        play := s.play.copied (.right i) }
    else
      some { s with readDone := s.readDone + 1, play := s.play.goto .publish }
  | .right i =>
    some { s with
      outputBuffer := s.outputBuffer ++ [s.data.recordedSamples s.play.cell]
      play := s.play.copied (.left (u32 (i + 1))) }
  | .publish =>
    some { s with
      data := { s.data with playIndex := s.play.idx % BUFFER_SIZE }
      play := s.play.goto .idle
      played := s.played ++ [s.outputBuffer] }

/-- What `main` sets up before the streams start: `readDone = 1`, `writeDone = 0`, both indices
0, zeroed samples, no callback running. -/
def init : State :=
  { readDone := 1
    writeDone := 0
    data := ⟨0, 0, fun _ => 0⟩
    record := ⟨.idle, 0, 0, 0⟩
    play := ⟨.idle, 0, 0, 0⟩
    outputBuffer := []
    recorded := 0
    played := [] }

def step (framesPerBuffer : Nat) (inputBuffer : Nat → Nat → SAMPLE) : Thread → State → Option State
  | .record => recordCallback framesPerBuffer inputBuffer
  | .play => playCallback framesPerBuffer

/-- The state after a schedule of the two callbacks, started by `main`. -/
def run (framesPerBuffer : Nat) (inputBuffer : Nat → Nat → SAMPLE) (sched : List Thread) :
    Option State :=
  Sched.run (step framesPerBuffer inputBuffer) sched init

/-- The `2 * framesPerBuffer` samples handed to the `k`-th `recordCallback`. -/
def chunk (framesPerBuffer : Nat) (inputBuffer : Nat → Nat → SAMPLE) (k : Nat) : List SAMPLE :=
  (List.range (2 * framesPerBuffer)).map (inputBuffer k)

end AudioRecord
end SoundScreen
