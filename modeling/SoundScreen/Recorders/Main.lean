import Mathlib.Tactic.Linarith
import SoundScreen.Lib.Trace

/-!
# SoundScreen.Recorders.Main

`main` of `real_time_audio/audio_record.c` and `audio_record_python.c` from the semaphores on: the
same start-up and polling, then the label `done` with different clean-ups. What the calls return
is given (`Outcomes`); the result is the trace of the calls and the exit code. The setting up of
Python before and the device numbers, which are constants, are left out.

* `startup_stop`: where the start-up goes to `done` before a stream is started.
* `not_justified_of_start`: a stream that is started lacks one of its semaphores, as the second
  `sem_init` is only called when the first fails.
* `polling_err`: the polling loop keeps the result for the output stream only.
* `startup_shutdown_iff`: when a run keeps the discipline of its resources and reports its
  failures.
-/

namespace SoundScreen
namespace Recorders

open Trace

inductive Semaphore where
  | readDone
  | writeDone
  deriving DecidableEq, Repr

inductive Stream where
  | input
  | output
  deriving DecidableEq, Repr

abbrev PaError := Int

def paNoError : PaError := 0

/-- What the calls return. `Pa_IsStreamActive` returns the results of the list in order, and 0
after them; `calloc` says whether it is not `NULL`, and `garbage` whether the pointer is before it
has been assigned. -/
structure Outcomes where
  sem_init : Semaphore → Int
  calloc : Bool
  Pa_Initialize : PaError
  Pa_OpenStream : Stream → PaError
  Pa_StartStream : Stream → PaError
  Pa_IsStreamActive : List PaError
  Pa_CloseStream : Stream → PaError
  garbage : Bool

inductive Event where
  | sem_init (sem : Semaphore) (result : Int)
  | calloc (nonNull : Bool)
  | Pa_Initialize (err : PaError)
  | Pa_OpenStream (stream : Stream) (err : PaError)
  | Pa_StartStream (stream : Stream) (err : PaError)
  | Pa_IsStreamActive (stream : Stream) (err : PaError)
  | Pa_Sleep
  | Pa_CloseStream (stream : Stream) (err : PaError)
  | Pa_Terminate
  | cleanPython
  | sem_destroy (sem : Semaphore)
  | read_recordedSamples
  | free_recordedSamples
  deriving DecidableEq, Repr

/-- The variables of `main` and the calls so far. `recordedSamples` is `none` until assigned. -/
structure Machine where
  err : PaError := paNoError
  recordedSamples : Option Bool := none
  trace : List Event := []

def Machine.call (m : Machine) (e : Event) : Machine := { m with trace := m.trace ++ [e] }

@[simp] theorem call_err (m : Machine) (e : Event) : (m.call e).err = m.err := rfl

@[simp] theorem call_trace (m : Machine) (e : Event) : (m.call e).trace = m.trace ++ [e] := rfl

/-! ## The source -/

/-- `if (sem_init(&readDone, 0, 1) < 0 && sem_init(&writeDone, 0, 0) < 0) goto done;`.
An error is a machine at the label `done`. -/
def semaphores (o : Outcomes) (m : Machine) : Except Machine Machine :=
  let m := m.call (.sem_init .readDone (o.sem_init .readDone))
  if o.sem_init .readDone < 0 then
    let m := m.call (.sem_init .writeDone (o.sem_init .writeDone))
    if o.sem_init .writeDone < 0 then .error m else .ok m
  else
    .ok m

def allocate (o : Outcomes) (m : Machine) : Except Machine Machine :=
  let m := { m.call (.calloc o.calloc) with recordedSamples := some o.calloc }
  if o.calloc then .ok m else .error m

/-- `err = call; if (err != paNoError) goto done;`. -/
def check (e : Event) (err : PaError) (m : Machine) : Except Machine Machine :=
  let m := { m.call e with err := err }
  if err ≠ paNoError then .error m else .ok m

def streams (o : Outcomes) (m : Machine) : Except Machine Machine := do
  let m ← check (.Pa_Initialize o.Pa_Initialize) o.Pa_Initialize m
  let m ← check (.Pa_OpenStream .input (o.Pa_OpenStream .input)) (o.Pa_OpenStream .input) m
  let m ← check (.Pa_OpenStream .output (o.Pa_OpenStream .output)) (o.Pa_OpenStream .output) m
  let m ← check (.Pa_StartStream .input (o.Pa_StartStream .input)) (o.Pa_StartStream .input) m
  check (.Pa_StartStream .output (o.Pa_StartStream .output)) (o.Pa_StartStream .output) m

def startup (o : Outcomes) (m : Machine) : Except Machine Machine := do
  let m ← semaphores o m
  let m ← allocate o m
  streams o m

/-- `err = Pa_IsStreamActive(stream)`. -/
def active (stream : Stream) (err : PaError) (m : Machine) : Machine :=
  { m.call (.Pa_IsStreamActive stream err) with err := err }

/-- The `while` loop, on the results still to come. -/
def polling : List PaError → Machine → Machine
  | [], m => active .output 0 (active .input 0 m)
  | [i], m =>
    let m := active .input i m
    if i = 1 then polling [] (m.call .Pa_Sleep) else active .output 0 m
  | i :: j :: results, m =>
    let m := active .input i m
    if i = 1 then
      polling (j :: results) (m.call .Pa_Sleep)
    else
      let m := active .output j m
      if j = 1 then polling results (m.call .Pa_Sleep) else m

/-- Up to the `goto done` after the loop. -/
def record (o : Outcomes) : Except Machine Machine := do
  let m ← startup o {}
  let m := polling o.Pa_IsStreamActive m
  if m.err < 0 then .error m else .ok m

/-- `err = Pa_CloseStream(inputStream); err = Pa_CloseStream(outputStream);`. -/
def close (o : Outcomes) (m : Machine) : Machine :=
  let m := { m.call (.Pa_CloseStream .input (o.Pa_CloseStream .input)) with
    err := o.Pa_CloseStream .input }
  { m.call (.Pa_CloseStream .output (o.Pa_CloseStream .output)) with
    err := o.Pa_CloseStream .output }

/-- From the destruction of the semaphores to the end. -/
def finish (o : Outcomes) (m : Machine) : Machine :=
  let m := (m.call (.sem_destroy .readDone)).call (.sem_destroy .writeDone)
  let m := m.call .read_recordedSamples
  let m := if m.recordedSamples.getD o.garbage then m.call .free_recordedSamples else m
  { m with err := if m.err ≠ paNoError then 1 else m.err }

/-- `main` of `audio_record.c`: the trace, and in `err` the exit code. -/
def audio_record (o : Outcomes) : Machine :=
  match record o with
  | .ok m => finish o ((close o m).call .Pa_Terminate)
  | .error m => finish o (m.call .Pa_Terminate)

/-- `main` of `audio_record_python.c`, which closes the streams after the label. -/
def audio_record_python (o : Outcomes) : Machine :=
  match record o with
  | .ok m => finish o (((close o m).call .Pa_Terminate).call .cleanPython)
  | .error m => finish o (((close o m).call .Pa_Terminate).call .cleanPython)

/-! ## The discipline -/

/-- What must have happened before an event: a stream is started with both semaphores initialised,
closed if it is open and has not been closed; `recordedSamples` is read and freed once, after it
has been assigned. -/
def Allowed (past : List Event) : Event → Prop
  | .Pa_StartStream _ err =>
    err = paNoError → ∀ sem, ∃ result, 0 ≤ result ∧ .sem_init sem result ∈ past
  | .Pa_CloseStream stream _ =>
    .Pa_OpenStream stream paNoError ∈ past ∧ ∀ err, .Pa_CloseStream stream err ∉ past
  | .read_recordedSamples => (∃ nonNull, .calloc nonNull ∈ past) ∧ .read_recordedSamples ∉ past
  | .free_recordedSamples => (∃ nonNull, .calloc nonNull ∈ past) ∧ .free_recordedSamples ∉ past
  | _ => True

/-- A step that failed; clean-up calls are no steps. -/
def Failed : Event → Prop
  | .sem_init _ result => result < 0
  | .calloc nonNull => nonNull = false
  | .Pa_Initialize err => err ≠ paNoError
  | .Pa_OpenStream _ err => err ≠ paNoError
  | .Pa_StartStream _ err => err ≠ paNoError
  | .Pa_IsStreamActive _ err => err < 0
  | _ => False

structure Disciplined (m : Machine) : Prop where
  allowed : Justified Allowed [] m.trace
  reported : m.err = 0 ↔ ∀ e ∈ m.trace, ¬Failed e

/-! ## The start-up -/

def SemaphoresFail (o : Outcomes) : Prop := ∀ sem, o.sem_init sem < 0

/-- The start-up gets past the start of the input stream. -/
def InputStarts (o : Outcomes) : Prop :=
  o.Pa_Initialize = paNoError ∧ (∀ stream, o.Pa_OpenStream stream = paNoError) ∧
    o.Pa_StartStream .input = paNoError

def semTrace (o : Outcomes) : List Event :=
  if o.sem_init .readDone < 0 then
    [.sem_init .readDone (o.sem_init .readDone), .sem_init .writeDone (o.sem_init .writeDone)]
  else
    [.sem_init .readDone (o.sem_init .readDone)]

/-- The calls up to the start of the input stream, the last of which failed with the error. -/
inductive Stops (o : Outcomes) : PaError → List Event → Prop where
  | portAudio (h : o.Pa_Initialize ≠ paNoError) :
      Stops o o.Pa_Initialize [.Pa_Initialize o.Pa_Initialize]
  | openInput (hi : o.Pa_Initialize = paNoError) (h : o.Pa_OpenStream .input ≠ paNoError) :
      Stops o (o.Pa_OpenStream .input)
        [.Pa_Initialize paNoError, .Pa_OpenStream .input (o.Pa_OpenStream .input)]
  | openOutput (hi : o.Pa_Initialize = paNoError) (ho : o.Pa_OpenStream .input = paNoError)
      (h : o.Pa_OpenStream .output ≠ paNoError) :
      Stops o (o.Pa_OpenStream .output)
        [.Pa_Initialize paNoError, .Pa_OpenStream .input paNoError,
          .Pa_OpenStream .output (o.Pa_OpenStream .output)]
  | startInput (hi : o.Pa_Initialize = paNoError)
      (ho : ∀ stream, o.Pa_OpenStream stream = paNoError)
      (h : o.Pa_StartStream .input ≠ paNoError) :
      Stops o (o.Pa_StartStream .input)
        [.Pa_Initialize paNoError, .Pa_OpenStream .input paNoError,
          .Pa_OpenStream .output paNoError, .Pa_StartStream .input (o.Pa_StartStream .input)]

theorem mem_semTrace {o : Outcomes} {e : Event} (h : e ∈ semTrace o) :
    ∃ sem result, e = .sem_init sem result := by
  unfold semTrace at h
  split at h
  · rcases List.mem_pair.mp h with rfl | rfl
    · exact ⟨_, _, rfl⟩
    · exact ⟨_, _, rfl⟩
  · exact ⟨_, _, List.mem_singleton.mp h⟩

theorem semaphores_fail {o : Outcomes} (h : SemaphoresFail o) :
    semaphores o {} = .error { trace := semTrace o } := by
  simp [semaphores, semTrace, Machine.call, h .readDone, h .writeDone]

theorem semaphores_pass {o : Outcomes} (h : ¬SemaphoresFail o) :
    semaphores o {} = .ok { trace := semTrace o } := by
  by_cases hr : o.sem_init .readDone < 0
  · have hw : ¬o.sem_init .writeDone < 0 := by
      intro hw
      refine h ?_
      intro sem
      cases sem with
      | readDone => exact hr
      | writeDone => exact hw
    simp [semaphores, semTrace, Machine.call, hr, hw]
  · simp [semaphores, semTrace, Machine.call, hr]

theorem check_ok (e : Event) (m : Machine) :
    check e paNoError m = .ok { m.call e with err := paNoError } := by
  simp [check]

theorem check_error (e : Event) {err : PaError} (h : err ≠ paNoError) (m : Machine) :
    check e err m = .error { m.call e with err := err } := by
  simp [check, h]

theorem startup_semaphores {o : Outcomes} (h : SemaphoresFail o) :
    startup o {} = .error { trace := semTrace o } := by
  unfold startup
  rw [semaphores_fail h]
  rfl

theorem startup_allocate {o : Outcomes} (h : ¬SemaphoresFail o) (hc : o.calloc = false) :
    startup o {} = .error
      { recordedSamples := some false, trace := semTrace o ++ [.calloc false] } := by
  unfold startup
  rw [semaphores_pass h]
  simp [allocate, hc, Machine.call, bind, Except.bind]

theorem startup_allocated {o : Outcomes} (h : ¬SemaphoresFail o) (hc : o.calloc = true) :
    startup o {} = streams o
      { recordedSamples := some true, trace := semTrace o ++ [.calloc true] } := by
  unfold startup
  rw [semaphores_pass h]
  simp [allocate, hc, Machine.call, bind, Except.bind]

theorem streams_stop {o : Outcomes} (h : ¬InputStarts o) (m : Machine) : ∃ err calls,
    Stops o err calls ∧ streams o m = .error { m with err := err, trace := m.trace ++ calls } := by
  by_cases h₁ : o.Pa_Initialize = paNoError
  · by_cases h₂ : o.Pa_OpenStream .input = paNoError
    · by_cases h₃ : o.Pa_OpenStream .output = paNoError
      · have ho : ∀ stream, o.Pa_OpenStream stream = paNoError := by
          intro stream
          cases stream with
          | input => exact h₂
          | output => exact h₃
        have h₄ : o.Pa_StartStream .input ≠ paNoError := fun h₄ => h ⟨h₁, ho, h₄⟩
        refine ⟨_, _, .startInput h₁ ho h₄, ?_⟩
        simp [streams, h₁, h₂, h₃, check_ok, check_error _ h₄, bind, Except.bind, Machine.call]
      · refine ⟨_, _, .openOutput h₁ h₂ h₃, ?_⟩
        simp [streams, h₁, h₂, check_ok, check_error _ h₃, bind, Except.bind, Machine.call]
    · refine ⟨_, _, .openInput h₁ h₂, ?_⟩
      simp [streams, h₁, check_ok, check_error _ h₂, bind, Except.bind, Machine.call]
  · refine ⟨_, _, .portAudio h₁, ?_⟩
    simp [streams, check_error _ h₁, bind, Except.bind, Machine.call]

/-! ## Events are only added -/

/-- The calls of `m` come first in the trace of `m'`. -/
def Extends (m m' : Machine) : Prop := m.trace <+: m'.trace

theorem Extends.trans {m m' m'' : Machine} (h : Extends m m') (h' : Extends m' m'') :
    Extends m m'' := List.IsPrefix.trans h h'

/-- The machine at the label, wherever it comes from. -/
def label : Except Machine Machine → Machine
  | .ok m => m
  | .error m => m

theorem extends_call (m : Machine) (e : Event) : Extends m (m.call e) := List.prefix_append _ _

theorem extends_check (e : Event) (err : PaError) (m : Machine) :
    Extends m (label (check e err m)) := by
  by_cases h : err = paNoError
  · rw [h, check_ok]
    exact extends_call m e
  · rw [check_error e h]
    exact extends_call m e

theorem extends_active (stream : Stream) (err : PaError) (m : Machine) :
    Extends m (active stream err m) := extends_call m (.Pa_IsStreamActive stream err)

theorem extends_polling (results : List PaError) (m : Machine) : Extends m (polling results m) := by
  fun_induction polling results m with
  | case1 m => exact (extends_active .input 0 m).trans (extends_active .output 0 _)
  | case2 m m' ih =>
    exact ((extends_active .input 1 m).trans (extends_call _ .Pa_Sleep)).trans ih
  | case3 i m m' hi => exact (extends_active .input i m).trans (extends_active .output 0 _)
  | case4 j results m m' ih =>
    exact ((extends_active .input 1 m).trans (extends_call _ .Pa_Sleep)).trans ih
  | case5 i results m m' hi m'' ih =>
    have hpolls := (extends_active .input i m).trans (extends_active .output 1 _)
    exact (hpolls.trans (extends_call _ .Pa_Sleep)).trans ih
  | case6 i j results m m' hi m'' hj =>
    exact (extends_active .input i m).trans (extends_active .output j _)

/-- The loop ends with a poll of the output stream and leaves its result in `err`: an error of the
input stream is overwritten. -/
theorem polling_err (results : List PaError) (m : Machine) : ∃ past err,
    (polling results m).trace = past ++ [.Pa_IsStreamActive .output err] ∧
      (polling results m).err = err := by
  fun_induction polling results m with
  | case1 m => exact ⟨(active .input 0 m).trace, 0, rfl, rfl⟩
  | case2 m m' ih => exact ih
  | case3 i m m' hi => exact ⟨(active .input i m).trace, 0, rfl, rfl⟩
  | case4 j results m m' ih => exact ih
  | case5 i results m m' hi m'' ih => exact ih
  | case6 i j results m m' hi m'' hj => exact ⟨(active .input i m).trace, j, rfl, rfl⟩

/-! ## The clean-up -/

theorem close_trace (o : Outcomes) (m : Machine) : (close o m).trace = m.trace ++
    [.Pa_CloseStream .input (o.Pa_CloseStream .input),
      .Pa_CloseStream .output (o.Pa_CloseStream .output)] := by
  simp [close, Machine.call]

theorem finish_trace (o : Outcomes) (m : Machine) : (finish o m).trace =
    m.trace ++ [.sem_destroy .readDone, .sem_destroy .writeDone, .read_recordedSamples] ++
      if m.recordedSamples.getD o.garbage then [.free_recordedSamples] else [] := by
  unfold finish
  simp only [Machine.call, List.append_assoc, List.cons_append, List.nil_append]
  split
  · simp
  · simp

theorem finish_err (o : Outcomes) (m : Machine) : (finish o m).err = 0 ↔ m.err = 0 := by
  unfold finish
  simp only [apply_ite Machine.err, call_err, ite_self]
  split
  · rename_i h
    exact ⟨fun h' => absurd h' (by decide), fun h' => absurd h' h⟩
  · exact Iff.rfl

theorem extends_finish (o : Outcomes) (m : Machine) : Extends m (finish o m) := by
  rw [Extends, finish_trace, List.append_assoc]
  exact List.prefix_append _ _

theorem extends_close (o : Outcomes) (m : Machine) : Extends m (close o m) := by
  rw [Extends, close_trace]
  exact List.prefix_append _ _

theorem audio_record_error {o : Outcomes} {m : Machine} (h : record o = .error m) :
    audio_record o = finish o (m.call .Pa_Terminate) := by
  unfold audio_record
  rw [h]

theorem audio_record_python_eq (o : Outcomes) : audio_record_python o =
    finish o (((close o (label (record o))).call .Pa_Terminate).call .cleanPython) := by
  unfold audio_record_python
  cases record o with
  | ok m => rfl
  | error m => rfl

theorem extends_audio_record (o : Outcomes) : Extends (label (record o)) (audio_record o) := by
  unfold audio_record
  cases record o with
  | ok m =>
    have hclose := (extends_close o m).trans (extends_call _ .Pa_Terminate)
    exact hclose.trans (extends_finish o _)
  | error m => exact (extends_call m .Pa_Terminate).trans (extends_finish o _)

theorem extends_audio_record_python (o : Outcomes) :
    Extends (label (record o)) (audio_record_python o) := by
  rw [audio_record_python_eq]
  have hclose := (extends_close o (label (record o))).trans (extends_call _ .Pa_Terminate)
  exact (hclose.trans (extends_call _ .cleanPython)).trans (extends_finish o _)

theorem record_error {o : Outcomes} {m : Machine} (h : startup o {} = .error m) :
    record o = .error m := by
  unfold record
  rw [h]
  rfl

theorem extends_record (o : Outcomes) : Extends (label (startup o {})) (label (record o)) := by
  unfold record
  cases startup o {} with
  | ok m =>
    change Extends m (label (if (polling o.Pa_IsStreamActive m).err < 0 then _ else _))
    split
    · exact extends_polling _ m
    · exact extends_polling _ m
  | error m => exact List.prefix_refl _

/-! ## Starting the streams -/

/-- The calls from `calloc` to the start of the input stream. -/
def startCalls : List Event :=
  [.calloc true, .Pa_Initialize paNoError, .Pa_OpenStream .input paNoError,
    .Pa_OpenStream .output paNoError]

theorem streams_start {o : Outcomes} (h : ¬SemaphoresFail o) (hc : o.calloc = true)
    (hs : InputStarts o) : semTrace o ++ startCalls ++ [.Pa_StartStream .input paNoError] <+:
      (label (startup o {})).trace := by
  rw [startup_allocated h hc]
  simp only [streams, hs.1, hs.2.1, hs.2.2, check_ok, bind, Except.bind]
  refine List.IsPrefix.trans ?_ (extends_check _ _ _)
  simp [Machine.call, startCalls]

/-- The second `sem_init` is called only when the first has failed. -/
theorem semTrace_not_both (o : Outcomes) :
    ∃ sem, ∀ result, 0 ≤ result → Event.sem_init sem result ∉ semTrace o := by
  unfold semTrace
  by_cases h : o.sem_init .readDone < 0
  · refine ⟨.readDone, ?_⟩
    intro result hresult hmem
    rw [if_pos h] at hmem
    simp at hmem
    omega
  · refine ⟨.writeDone, ?_⟩
    intro result hresult hmem
    rw [if_neg h] at hmem
    simp at hmem

/-- Once a stream runs, it does so without one of the semaphores. -/
theorem not_justified_of_start {o : Outcomes} {m : Machine} (h : ¬SemaphoresFail o)
    (hc : o.calloc = true) (hs : InputStarts o) (hm : Extends (label (startup o {})) m) :
    ¬Justified Allowed [] m.trace := by
  refine not_justified ((streams_start h hc hs).trans hm) ?_
  intro hallowed
  obtain ⟨sem, hsem⟩ := semTrace_not_both o
  obtain ⟨result, hresult, hmem⟩ := hallowed rfl sem
  rcases List.mem_append.mp hmem with hmem | hmem
  · exact hsem result hresult hmem
  · simp [startCalls] at hmem

/-! ## Runs that end before a stream is started -/

/-- A call of the start-up that starts no stream. -/
def Startup : Event → Prop
  | .sem_init _ _ | .calloc _ | .Pa_Initialize _ | .Pa_OpenStream _ _ => True
  | .Pa_StartStream _ err => err ≠ paNoError
  | _ => False

theorem startup_allowed {e : Event} (h : Startup e) (past : List Event) : Allowed past e := by
  cases e with
  | Pa_StartStream stream err => exact fun herr => absurd herr h
  | sem_init | calloc | Pa_Initialize | Pa_OpenStream => trivial
  | Pa_CloseStream | read_recordedSamples | free_recordedSamples => exact h.elim
  | Pa_IsStreamActive | Pa_Sleep | Pa_Terminate | cleanPython | sem_destroy => trivial

theorem justified_startup {calls : List Event} (h : ∀ e ∈ calls, Startup e) (past : List Event) :
    Justified Allowed past calls := by
  induction calls generalizing past with
  | nil => trivial
  | cons e calls ih =>
    obtain ⟨he, hcalls⟩ := List.forall_mem_cons.mp h
    exact ⟨startup_allowed he past, ih hcalls _⟩

theorem semTrace_startup (o : Outcomes) : ∀ e ∈ semTrace o, Startup e := by
  intro e he
  obtain ⟨sem, result, rfl⟩ := mem_semTrace he
  trivial

theorem Stops.startup {o : Outcomes} {err : PaError} {calls : List Event}
    (h : Stops o err calls) : ∀ e ∈ calls, Startup e := by
  cases h with
  | portAudio h => simp [Startup]
  | openInput hi h => simp [Startup]
  | openOutput hi ho h => simp [Startup]
  | startInput hi ho h => simp [Startup, h]

theorem Stops.err_ne {o : Outcomes} {err : PaError} {calls : List Event}
    (h : Stops o err calls) : err ≠ paNoError := by
  cases h <;> assumption

theorem Stops.failed {o : Outcomes} {err : PaError} {calls : List Event}
    (h : Stops o err calls) : ∃ e ∈ calls, Failed e := by
  cases h with
  | portAudio h => exact ⟨.Pa_Initialize o.Pa_Initialize, by simp, h⟩
  | openInput hi h => exact ⟨.Pa_OpenStream .input (o.Pa_OpenStream .input), by simp, h⟩
  | openOutput hi ho h => exact ⟨.Pa_OpenStream .output (o.Pa_OpenStream .output), by simp, h⟩
  | startInput hi ho h => exact ⟨.Pa_StartStream .input (o.Pa_StartStream .input), by simp, h⟩

/-- Both streams are open only when the start of the input stream fails. -/
theorem Stops.opened_iff {o : Outcomes} {err : PaError} {calls : List Event}
    (h : Stops o err calls) : (∀ stream, .Pa_OpenStream stream paNoError ∈ calls) ↔
      o.Pa_Initialize = paNoError ∧ (∀ stream, o.Pa_OpenStream stream = paNoError) ∧
        o.Pa_StartStream .input ≠ paNoError := by
  cases h with
  | portAudio h =>
    refine ⟨fun hall => ?_, fun hall => absurd hall.1 h⟩
    simpa using hall .input
  | openInput hi h =>
    refine ⟨fun hall => ?_, fun hall => absurd (hall.2.1 .input) h⟩
    simpa using hall .output
  | openOutput hi ho h =>
    refine ⟨fun hall => ?_, fun hall => absurd (hall.2.1 .output) h⟩
    have houtput := hall .output
    simp only [List.mem_cons, reduceCtorEq, Event.Pa_OpenStream.injEq, true_and, false_and,
      List.not_mem_nil, or_false, false_or] at houtput
    exact absurd houtput.symm h
  | startInput hi ho h =>
    refine ⟨fun _ => ⟨hi, ho, h⟩, fun _ stream => ?_⟩
    cases stream <;> simp

theorem justified_finish {past : List Event} (hc : .calloc true ∈ past)
    (hr : .read_recordedSamples ∉ past) (hf : .free_recordedSamples ∉ past) (b : Bool) :
    Justified Allowed past
      ([.sem_destroy .readDone, .sem_destroy .writeDone, .read_recordedSamples] ++
        if b then [.free_recordedSamples] else []) := by
  cases b with
  | false =>
    refine ⟨trivial, trivial, ⟨⟨true, ?_⟩, ?_⟩, trivial⟩
    · simp [hc]
    · simp [hr]
  | true =>
    refine ⟨trivial, trivial, ⟨⟨true, ?_⟩, ?_⟩, ⟨⟨true, ?_⟩, ?_⟩, trivial⟩
    · simp [hc]
    · simp [hr]
    · simp [hc]
    · simp [hf]

/-- The calls of a start-up that fails after `calloc`. -/
def stopTrace (o : Outcomes) (calls : List Event) : List Event :=
  semTrace o ++ [.calloc true] ++ calls

theorem startup_stop {o : Outcomes} (h : ¬SemaphoresFail o) (hc : o.calloc = true)
    (hs : ¬InputStarts o) : ∃ err calls, Stops o err calls ∧ record o = .error
      { err := err, recordedSamples := some true, trace := stopTrace o calls } := by
  obtain ⟨err, calls, hstop, hstreams⟩ := streams_stop hs
    { recordedSamples := some true, trace := semTrace o ++ [.calloc true] }
  exact ⟨err, calls, hstop, record_error ((startup_allocated h hc).trans hstreams)⟩

theorem stopTrace_startup {o : Outcomes} {err : PaError} {calls : List Event}
    (h : Stops o err calls) : ∀ e ∈ stopTrace o calls, Startup e := by
  intro e he
  rcases List.mem_append.mp he with he | he
  · rcases List.mem_append.mp he with he | he
    · exact semTrace_startup o e he
    · rw [List.mem_singleton.mp he]
      trivial
  · exact h.startup e he

theorem calloc_mem_stopTrace (o : Outcomes) (calls : List Event) :
    .calloc true ∈ stopTrace o calls := by
  simp [stopTrace]

theorem stopTrace_failed {o : Outcomes} {err : PaError} {calls : List Event}
    (h : Stops o err calls) : ∃ e ∈ stopTrace o calls, Failed e := by
  obtain ⟨e, he, hfailed⟩ := h.failed
  exact ⟨e, List.mem_append_right _ he, hfailed⟩

theorem not_mem_of_startup {calls : List Event} (h : ∀ e ∈ calls, Startup e) (e : Event)
    (he : ¬Startup e) : e ∉ calls := fun hmem => he (h e hmem)

theorem reported_of_failed {m : Machine} {e : Event} (he : e ∈ m.trace) (hf : Failed e)
    (hm : m.err ≠ 0) : m.err = 0 ↔ ∀ e ∈ m.trace, ¬Failed e :=
  ⟨fun h => absurd h hm, fun h => absurd hf (h e he)⟩

theorem audio_record_disciplined {o : Outcomes} (h : ¬SemaphoresFail o) (hc : o.calloc = true)
    (hs : ¬InputStarts o) : Disciplined (audio_record o) := by
  obtain ⟨err, calls, hstop, hrecord⟩ := startup_stop h hc hs
  have hcalls := stopTrace_startup hstop
  rw [audio_record_error hrecord]
  refine ⟨?_, ?_⟩
  · rw [finish_trace, List.append_assoc, call_trace, justified_append, justified_append]
    refine ⟨⟨justified_startup hcalls [], trivial, trivial⟩, ?_⟩
    refine justified_finish (List.mem_append_left _ (calloc_mem_stopTrace o calls)) ?_ ?_ _
    · simpa using not_mem_of_startup hcalls .read_recordedSamples id
    · simpa using not_mem_of_startup hcalls .free_recordedSamples id
  · obtain ⟨e, he, hfailed⟩ := stopTrace_failed hstop
    have hmem := extends_audio_record o
    rw [audio_record_error hrecord, hrecord] at hmem
    refine reported_of_failed (hmem.subset he) hfailed ?_
    rw [Ne, finish_err]
    exact hstop.err_ne

theorem justified_close {past : List Event} (o : Outcomes)
    (ho : ∀ stream, .Pa_OpenStream stream paNoError ∈ past)
    (hc : ∀ stream err, .Pa_CloseStream stream err ∉ past) :
    Justified Allowed past [.Pa_CloseStream .input (o.Pa_CloseStream .input),
      .Pa_CloseStream .output (o.Pa_CloseStream .output)] := by
  refine ⟨⟨ho .input, hc .input⟩, ⟨?_, ?_⟩, trivial⟩
  · exact List.mem_append_left _ (ho .output)
  · intro err
    simpa using hc .output err

/-! ## Runs that break the discipline -/

theorem not_justified_finish {o : Outcomes} {m : Machine}
    (h : ∀ nonNull, .calloc nonNull ∉ m.trace) : ¬Justified Allowed [] (finish o m).trace := by
  have hpre : m.trace ++ [.sem_destroy .readDone, .sem_destroy .writeDone] ++
      [.read_recordedSamples] <+: (finish o m).trace := by
    rw [finish_trace]
    exact ⟨if m.recordedSamples.getD o.garbage then [.free_recordedSamples] else [], by simp⟩
  refine not_justified hpre ?_
  rintro ⟨⟨nonNull, hmem⟩, -⟩
  simp [h nonNull] at hmem

theorem not_justified_close {o : Outcomes} {m m' : Machine} (hm : Extends (close o m) m')
    {stream : Stream} (h : .Pa_OpenStream stream paNoError ∉ m.trace) :
    ¬Justified Allowed [] m'.trace := by
  have hclose := hm
  rw [Extends, close_trace] at hclose
  cases stream with
  | input =>
    have hpre : m.trace ++ [.Pa_CloseStream .input (o.Pa_CloseStream .input)] <+: m'.trace :=
      List.IsPrefix.trans ⟨[.Pa_CloseStream .output (o.Pa_CloseStream .output)], by simp⟩ hclose
    exact not_justified hpre fun hallowed => h hallowed.1
  | output =>
    have hpre : m.trace ++ [.Pa_CloseStream .input (o.Pa_CloseStream .input)] ++
        [.Pa_CloseStream .output (o.Pa_CloseStream .output)] <+: m'.trace := by
      rwa [List.append_assoc]
    refine not_justified hpre fun hallowed => h ?_
    simpa using hallowed.1

theorem calloc_notMem_semTrace (o : Outcomes) (nonNull : Bool) :
    .calloc nonNull ∉ semTrace o := by
  intro h
  obtain ⟨sem, result, he⟩ := mem_semTrace h
  cases he

theorem open_notMem_semTrace (o : Outcomes) (stream : Stream) (err : PaError) :
    .Pa_OpenStream stream err ∉ semTrace o := by
  intro h
  obtain ⟨sem, result, he⟩ := mem_semTrace h
  cases he

theorem audio_record_semaphores {o : Outcomes} (h : SemaphoresFail o) :
    ¬Justified Allowed [] (audio_record o).trace := by
  rw [audio_record_error (record_error (startup_semaphores h))]
  refine not_justified_finish fun nonNull => ?_
  simpa using calloc_notMem_semTrace o nonNull

theorem audio_record_allocate {o : Outcomes} (h : ¬SemaphoresFail o) (hc : o.calloc = false) :
    ¬Disciplined (audio_record o) := by
  intro hd
  have hreported := hd.reported
  rw [audio_record_error (record_error (startup_allocate h hc)), finish_err] at hreported
  have hfailed := hreported.mp rfl (.calloc false)
  refine hfailed ?_ rfl
  rw [finish_trace]
  simp

theorem audio_record_iff (o : Outcomes) : Disciplined (audio_record o) ↔
    ¬SemaphoresFail o ∧ o.calloc = true ∧ ¬InputStarts o := by
  constructor
  · intro hd
    have h : ¬SemaphoresFail o := fun h => audio_record_semaphores h hd.allowed
    have hc : o.calloc = true := by
      by_contra hc
      exact audio_record_allocate h (Bool.eq_false_iff.mpr hc) hd
    refine ⟨h, hc, fun hs => ?_⟩
    exact not_justified_of_start h hc hs
      ((extends_record o).trans (extends_audio_record o)) hd.allowed
  · rintro ⟨h, hc, hs⟩
    exact audio_record_disciplined h hc hs

/-! ## The streams closed after the label -/

theorem audio_record_python_unopened {o : Outcomes} (stream : Stream)
    (h : .Pa_OpenStream stream paNoError ∉ (label (record o)).trace) :
    ¬Justified Allowed [] (audio_record_python o).trace := by
  rw [audio_record_python_eq]
  refine not_justified_close (o := o) ?_ h
  exact ((extends_call _ .Pa_Terminate).trans (extends_call _ .cleanPython)).trans
    (extends_finish o _)

theorem audio_record_python_semaphores {o : Outcomes} (h : SemaphoresFail o) :
    ¬Justified Allowed [] (audio_record_python o).trace := by
  refine audio_record_python_unopened .input ?_
  rw [record_error (startup_semaphores h)]
  exact open_notMem_semTrace o .input paNoError

theorem audio_record_python_allocate {o : Outcomes} (h : ¬SemaphoresFail o)
    (hc : o.calloc = false) : ¬Justified Allowed [] (audio_record_python o).trace := by
  refine audio_record_python_unopened .input ?_
  rw [record_error (startup_allocate h hc)]
  simpa [label] using open_notMem_semTrace o .input paNoError

/-- Whatever has failed, the exit code is that of the last `Pa_CloseStream`. -/
theorem audio_record_python_err (o : Outcomes) :
    (audio_record_python o).err = 0 ↔ o.Pa_CloseStream .output = 0 := by
  rw [audio_record_python_eq, finish_err]
  rfl

theorem audio_record_python_allowed {o : Outcomes} {err : PaError} {calls : List Event}
    (hstop : Stops o err calls) (hrecord : record o = .error
      { err := err, recordedSamples := some true, trace := stopTrace o calls })
    (hopen : ∀ stream, .Pa_OpenStream stream paNoError ∈ calls) :
    Justified Allowed [] (audio_record_python o).trace := by
  have hcalls := stopTrace_startup hstop
  rw [audio_record_python_eq, hrecord]
  rw [finish_trace, List.append_assoc, call_trace, call_trace, close_trace]
  rw [justified_append, justified_append, justified_append, justified_append]
  refine ⟨⟨⟨⟨justified_startup hcalls [], ?_⟩, trivial, trivial⟩, trivial, trivial⟩, ?_⟩
  · refine justified_close o ?_ fun stream err => ?_
    · intro stream
      change .Pa_OpenStream stream paNoError ∈ stopTrace o calls
      exact List.mem_append_right _ (hopen stream)
    · exact not_mem_of_startup hcalls (.Pa_CloseStream stream err) id
  · refine justified_finish ?_ ?_ ?_ _
    · simp [label, calloc_mem_stopTrace]
    · simpa [label] using not_mem_of_startup hcalls .read_recordedSamples id
    · simpa [label] using not_mem_of_startup hcalls .free_recordedSamples id

theorem audio_record_python_stop {o : Outcomes} {err : PaError} {calls : List Event}
    (hstop : Stops o err calls) (hrecord : record o = .error
      { err := err, recordedSamples := some true, trace := stopTrace o calls }) :
    Disciplined (audio_record_python o) ↔
      (∀ stream, .Pa_OpenStream stream paNoError ∈ calls) ∧
        o.Pa_CloseStream .output ≠ paNoError := by
  obtain ⟨e, he, hfailed⟩ := stopTrace_failed hstop
  have hmem : e ∈ (audio_record_python o).trace := by
    have hext := extends_audio_record_python o
    rw [hrecord] at hext
    exact hext.subset he
  have herr := audio_record_python_err o
  constructor
  · intro hd
    refine ⟨?_, ?_⟩
    · intro stream
      by_contra hopen
      refine audio_record_python_unopened stream ?_ hd.allowed
      rw [hrecord]
      simpa [label, stopTrace, open_notMem_semTrace] using hopen
    · intro hclose
      exact hd.reported.mp (herr.mpr hclose) e hmem hfailed
  · rintro ⟨hopen, hclose⟩
    refine ⟨audio_record_python_allowed hstop hrecord hopen, ?_⟩
    exact reported_of_failed hmem hfailed fun h => hclose (herr.mp h)

theorem audio_record_python_iff (o : Outcomes) : Disciplined (audio_record_python o) ↔
    ¬SemaphoresFail o ∧ o.calloc = true ∧
      (o.Pa_Initialize = paNoError ∧ (∀ stream, o.Pa_OpenStream stream = paNoError) ∧
        o.Pa_StartStream .input ≠ paNoError) ∧ o.Pa_CloseStream .output ≠ paNoError := by
  constructor
  · intro hd
    have h : ¬SemaphoresFail o := fun h => audio_record_python_semaphores h hd.allowed
    have hc : o.calloc = true := by
      by_contra hc
      exact audio_record_python_allocate h (Bool.eq_false_iff.mpr hc) hd.allowed
    have hs : ¬InputStarts o := fun hs => not_justified_of_start h hc hs
      ((extends_record o).trans (extends_audio_record_python o)) hd.allowed
    obtain ⟨err, calls, hstop, hrecord⟩ := startup_stop h hc hs
    obtain ⟨hopen, hclose⟩ := (audio_record_python_stop hstop hrecord).mp hd
    exact ⟨h, hc, hstop.opened_iff.mp hopen, hclose⟩
  · rintro ⟨h, hc, hstart, hclose⟩
    obtain ⟨err, calls, hstop, hrecord⟩ := startup_stop h hc fun hs => hstart.2.2 hs.2.2
    exact (audio_record_python_stop hstop hrecord).mpr ⟨hstop.opened_iff.mpr hstart, hclose⟩

theorem startup_shutdown_iff (o : Outcomes) :
    (Disciplined (audio_record o) ↔ ¬SemaphoresFail o ∧ o.calloc = true ∧ ¬InputStarts o) ∧
    (Disciplined (audio_record_python o) ↔ ¬SemaphoresFail o ∧ o.calloc = true ∧
      (o.Pa_Initialize = paNoError ∧ (∀ stream, o.Pa_OpenStream stream = paNoError) ∧
        o.Pa_StartStream .input ≠ paNoError) ∧ o.Pa_CloseStream .output ≠ paNoError) :=
  ⟨audio_record_iff o, audio_record_python_iff o⟩

/-- Every call succeeds, and the streams are not active at the first poll. -/
def success : Outcomes where
  sem_init _ := 0
  calloc := true
  Pa_Initialize := paNoError
  Pa_OpenStream _ := paNoError
  Pa_StartStream _ := paNoError
  Pa_IsStreamActive := []
  Pa_CloseStream _ := paNoError
  garbage := false

theorem success_undisciplined :
    ¬Disciplined (audio_record success) ∧ ¬Disciplined (audio_record_python success) := by
  refine ⟨fun h => ?_, fun h => ?_⟩
  · exact ((audio_record_iff success).mp h).2.2 ⟨rfl, fun _ => rfl, rfl⟩
  · exact ((audio_record_python_iff success).mp h).2.2.1.2.2 rfl

end Recorders
end SoundScreen
