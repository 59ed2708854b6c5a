import SoundScreen.Lib.Sched
import SoundScreen.Sample

/-!
# SoundScreen.AudioRecordPython.Callbacks

`real_time_audio/audio_record_python.c`: the recorder as in `audio_record.c`, and a
`playCallback` that passes the recorded samples through a Python function. One step is one shared
action of the C text: a semaphore operation, one sample copied, one call of the Python API; the
Python function reads the array it is given one cell at a time.

What the C text does not decide is in `Env`: the recorded samples, the outcome of each
`PyObject_CallObject`, and what is found in the memory of an array that has been released. A
`playCallback` that returned `paAbort` is not called again.
-/

namespace SoundScreen
namespace AudioRecordPython

def FRAMES_PER_SAMPLE : Nat := 4096
def NUM_CHANNELS : Nat := 2
def BUFFER_SIZE : Nat := FRAMES_PER_SAMPLE * NUM_CHANNELS

structure Env where
  /-- Sample `j` handed to call `k` of `recordCallback`. -/
  inputBuffer : Nat → Nat → SAMPLE
  /-- What call `k` of the Python function returns for its five arguments; `none` is `NULL`. -/
  callObject : Nat → List SAMPLE → Nat → Nat → Nat → Nat → Option (List SAMPLE)
  /-- What the `k`-th copy-out loop finds in cell `i` of a released array, `none` if nothing was
  written there since the release. -/
  freed : Nat → Nat → Option SAMPLE

inductive RecordPc where
  | idle
  | wait
  | left (i : Nat)
  | right (i : Nat)
  | ret
  deriving DecidableEq, Repr

/-- `call i` is the Python function about to read cell `i` of its argument; `decref` to `ret` is
the way of a call that returned an array, `failed` and `aborted` of one that returned `NULL`. -/
inductive PlayPc where
  | idle
  | wait
  | ensure
  | args
  | call (i : Nat)
  | decref
  | release
  | left (i : Nat)
  | right (i : Nat)
  | ret
  | failed
  | aborted
  deriving DecidableEq, Repr

structure RecordFrame where
  pc : RecordPc
  widx : Nat
  /-- How far `rptr` has moved in `inputBuffer`. -/
  rptr : Nat
  deriving DecidableEq, Repr

structure PlayFrame where
  pc : PlayPc
  ridx : Nat
  /-- References to the tuple of arguments. -/
  pArgs : Nat
  /-- What the Python function has read of its first argument. -/
  raw_data : List SAMPLE
  /-- The returned array: `NULL`, or its data, where `rptr` points. -/
  pValue : Option (List SAMPLE)
  /-- References to the returned array. -/
  refs : Nat

/-- `gil` counts the `PyGILState_Ensure` not yet released, `pFunc` and `pModule` the references
`main` holds. -/
structure State where
  readDone : Nat
  writeDone : Nat
  recordedSamples : Nat → SAMPLE
  gil : Nat
  pFunc : Int
  pModule : Int
  record : RecordFrame
  play : PlayFrame
  outputBuffer : List SAMPLE
  recorded : Nat
  played : List (List SAMPLE)

namespace RecordFrame

def entry : RecordFrame := ⟨.wait, 0, 0⟩

/-- `wptr[widx++ & (BUFFER_SIZE - 1)]`. -/
def cell (f : RecordFrame) : Nat := f.widx &&& (BUFFER_SIZE - 1)

def goto (f : RecordFrame) (pc : RecordPc) : RecordFrame := { f with pc := pc }

def copied (f : RecordFrame) (pc : RecordPc) : RecordFrame := ⟨pc, u32 (f.widx + 1), f.rptr + 1⟩

/-- The cell of `recordedSamples` the next move stores to, if it stores. -/
def access (f : RecordFrame) : Option Nat :=
  match f.pc with
  | .left i => if i < FRAMES_PER_SAMPLE then some f.cell else none
  | .right _ => some f.cell
  | _ => none

end RecordFrame

namespace PlayFrame

def entry : PlayFrame := ⟨.wait, 0, 0, [], none, 0⟩

/-- `rptr[ridx++ & (BUFFER_SIZE - 1)]`. -/
def cell (f : PlayFrame) : Nat := f.ridx &&& (BUFFER_SIZE - 1)

def goto (f : PlayFrame) (pc : PlayPc) : PlayFrame := { f with pc := pc }

def copied (f : PlayFrame) (pc : PlayPc) : PlayFrame :=
  { f with pc := pc, ridx := u32 (f.ridx + 1) }

/-- The index of the array the next move loads from, if it loads. -/
def access (f : PlayFrame) : Option Nat :=
  match f.pc with
  | .left i => if i < FRAMES_PER_SAMPLE then some f.cell else none
  | .right _ => some f.cell
  | _ => none

/-- The sample the copy-out loop loads: the array's as long as it has a reference, else what is
found in its memory. -/
def load (freed : Nat → Option SAMPLE) (f : PlayFrame) : SAMPLE :=
  let sample := (f.pValue.getD []).getD f.cell 0
  if f.refs = 0 then (freed f.cell).getD sample else sample

end PlayFrame

def recordCallback (env : Env) (s : State) : Option State :=
  match s.record.pc with
  | .idle => some { s with record := RecordFrame.entry }
  | .wait =>
    match s.readDone with
    | 0 => none
    | n + 1 => some { s with readDone := n, record := s.record.goto (.left 0) }
  | .left i =>
    if i < FRAMES_PER_SAMPLE then
      some { s with
        recordedSamples := Function.update s.recordedSamples s.record.cell
          (env.inputBuffer s.recorded s.record.rptr)
        record := s.record.copied (.right i) }
    else
      some { s with writeDone := s.writeDone + 1, record := s.record.goto .ret }
  | .right i =>
    some { s with
      recordedSamples := Function.update s.recordedSamples s.record.cell
        (env.inputBuffer s.recorded s.record.rptr)
      record := s.record.copied (.left (u32 (i + 1))) }
  | .ret => some { s with record := s.record.goto .idle, recorded := s.recorded + 1 }

def playCallback (env : Env) (s : State) : Option State :=
  match s.play.pc with
  | .idle => some { s with play := PlayFrame.entry, outputBuffer := [] }
  | .wait =>
    match s.writeDone with
    | 0 => none
    | n + 1 => some { s with writeDone := n, play := s.play.goto .ensure }
  | .ensure => some { s with gil := s.gil + 1, play := s.play.goto .args }
  | .args => some { s with play := { s.play with pc := .call 0, pArgs := 1, raw_data := [] } }
  | .call i =>
    if i < BUFFER_SIZE then
      some { s with play := { s.play with
        pc := .call (i + 1), raw_data := s.play.raw_data ++ [s.recordedSamples i] } }
    else
      match env.callObject s.played.length s.play.raw_data FRAMES_PER_SAMPLE 2 4 48000 with
      | none => some { s with play := { s.play with pc := .failed, pValue := none } }
      | some data =>
        some { s with play := { s.play with pc := .decref, pValue := some data, refs := 1 } }
  | .decref =>
    some { s with play := { s.play with
      pc := .release, pArgs := s.play.pArgs - 1, refs := s.play.refs - 1 } }
  | .release => some { s with gil := s.gil - 1, play := s.play.goto (.left 0) }
  | .left i =>
    if i < FRAMES_PER_SAMPLE then
      some { s with
        outputBuffer := s.outputBuffer ++ [s.play.load (env.freed s.played.length)]
        play := s.play.copied (.right i) }
    else
      some { s with readDone := s.readDone + 1, play := s.play.goto .ret }
  | .right i =>
    some { s with
      outputBuffer := s.outputBuffer ++ [s.play.load (env.freed s.played.length)]
      play := s.play.copied (.left (u32 (i + 1))) }
  | .ret => some { s with play := s.play.goto .idle, played := s.played ++ [s.outputBuffer] }
  | .failed =>
    some { s with
      pFunc := s.pFunc - 1, pModule := s.pModule - 1, play := s.play.goto .aborted }
  | .aborted => none

/-- What the end of `main` and the signal handler do with the references. -/
def cleanPython (s : State) : State := { s with pFunc := s.pFunc - 1, pModule := s.pModule - 1 }

/-- What `main` sets up before the streams start. -/
def init : State :=
  { readDone := 1
    writeDone := 0
    recordedSamples := fun _ => 0
    gil := 0
    pFunc := 1
    pModule := 1
    record := ⟨.idle, 0, 0⟩
    play := ⟨.idle, 0, 0, [], none, 0⟩
    outputBuffer := []
    recorded := 0
    played := [] }

def step (env : Env) : Thread → State → Option State
  | .record => recordCallback env
  | .play => playCallback env

/-- The state after a schedule of the two callbacks, started by `main`. -/
def run (env : Env) (sched : List Thread) : Option State := Sched.run (step env) sched init

namespace Env

variable (env : Env)

/-- The samples handed to the `k`-th `recordCallback`. -/
def chunk (k : Nat) : List SAMPLE := (List.range BUFFER_SIZE).map (env.inputBuffer k)

/-- The outcome of the `k`-th call of the Python function on the `k`-th chunk. -/
def outcome (k : Nat) : Option (List SAMPLE) :=
  env.callObject k (env.chunk k) FRAMES_PER_SAMPLE 2 4 48000

/-- Sample `i` of the released array with the given data. -/
def loaded (k : Nat) (data : List SAMPLE) (i : Nat) : SAMPLE :=
  (env.freed k i).getD (data.getD i 0)

end Env

end AudioRecordPython
end SoundScreen
