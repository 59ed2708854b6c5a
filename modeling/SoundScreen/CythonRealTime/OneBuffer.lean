import Mathlib.Logic.Function.Basic
import SoundScreen.Lib.Sched
import SoundScreen.Sample

/-!
# SoundScreen.CythonRealTime.OneBuffer

`cython_real_time/audio_helper.pyx`: the two callbacks hand one buffer to each other with two
semaphores. One step is one shared action: `sem_wait`, the copy of a sample, `sem_post`. What they
print, with and without the interpreter, is left out; so is `main`, of which the callbacks need the
buffer and the counts of the semaphores.

* `handsOver_iff`: the counts with which every run hands over every block once.
-/

namespace SoundScreen
namespace OneBuffer

open Function (update)

def FRAMES_PER_SAMPLE : Nat := 530
def NUM_CHANNELS : Nat := 2
def BUFFER_SIZE : Nat := FRAMES_PER_SAMPLE * NUM_CHANNELS

/-- Where a callback stands: `left i` is the loop test with the first copy of the body, `right i`
the second copy. -/
inductive Pc where
  | idle
  | left (i : Nat)
  | right (i : Nat)
  deriving DecidableEq, Repr

/-- `rptr` and `wptr` are how far the pointers of the callbacks have moved; `recorded` counts the
calls of `recordCallback` that returned, and `played` are the outputs of those of `playCallback`. -/
structure State where
  readDone : Nat
  writeDone : Nat
  recordedSamples : Nat → SAMPLE
  record : Pc
  rptr : Nat
  play : Pc
  wptr : Nat
  outputBuffer : Nat → SAMPLE
  recorded : Nat
  played : List (List SAMPLE)

/-! ## The source -/

/-- `inputBuffer k` is what the call `k` is given. -/
def recordCallback (inputBuffer : Nat → Nat → SAMPLE) (s : State) : Option State :=
  match s.record with
  | .idle =>
    match s.readDone with
    | 0 => none
    | n + 1 => some { s with readDone := n, record := .left 0, rptr := 0 }
  | .left i =>
    if i < BUFFER_SIZE then
      some { s with
        recordedSamples := update s.recordedSamples i (inputBuffer s.recorded s.rptr)
        rptr := s.rptr + 1
        record := .right i }
    else
      some { s with
        writeDone := s.writeDone + 1
        record := .idle
        recorded := s.recorded + 1 }
  | .right i =>
    some { s with
      recordedSamples := update s.recordedSamples (i + 1) (inputBuffer s.recorded s.rptr)
      rptr := s.rptr + 1
      record := .left (u32 (i + 2)) }

def playCallback (s : State) : Option State :=
  match s.play with
  | .idle =>
    match s.writeDone with
    | 0 => none
    | n + 1 => some { s with writeDone := n, play := .left 0, wptr := 0 }
  | .left i =>
    if i < BUFFER_SIZE then
      some { s with
        outputBuffer := update s.outputBuffer s.wptr (s.recordedSamples i)
        wptr := s.wptr + 1
        play := .right i }
    else
      some { s with
        readDone := s.readDone + 1
        play := .idle
        played := s.played ++ [(List.range s.wptr).map s.outputBuffer] }
  | .right i =>
    some { s with
      outputBuffer := update s.outputBuffer s.wptr (s.recordedSamples (i + 1))
      wptr := s.wptr + 1
      play := .left (u32 (i + 2)) }

def step (inputBuffer : Nat → Nat → SAMPLE) : Thread → State → Option State
  | .record => recordCallback inputBuffer
  | .play => playCallback

/-- Before the first call: `recordedSamples` are zeros, and the semaphores have these counts. -/
def init (readDone writeDone : Nat) : State :=
  { readDone := readDone
    writeDone := writeDone
    recordedSamples := fun _ => 0
    record := .idle
    rptr := 0
    play := .idle
    wptr := 0
    outputBuffer := fun _ => 0
    recorded := 0
    played := [] }

/-! ## The hand-over -/

/-- 1 between `sem_wait` and `sem_post`. -/
def Pc.tokens : Pc → Nat
  | .idle => 0
  | _ => 1

@[simp] theorem tokens_idle : Pc.idle.tokens = 0 := rfl
@[simp] theorem tokens_left (i : Nat) : (Pc.left i).tokens = 1 := rfl
@[simp] theorem tokens_right (i : Nat) : (Pc.right i).tokens = 1 := rfl

/-- The cell of `recordedSamples` the next step accesses, if it accesses one. -/
def Pc.access : Pc → Option Nat
  | .idle => none
  | .left i => if i < BUFFER_SIZE then some i else none
  | .right i => some (i + 1)

/-- The block that is given to call `k` of `recordCallback`. -/
def block (inputBuffer : Nat → Nat → SAMPLE) (k : Nat) : List SAMPLE :=
  (List.range BUFFER_SIZE).map (inputBuffer k)

/-- Block `k` is played by call `k` of `playCallback`, after it has been recorded and before the
next one is; every access is inside the buffer, and a callback can go on. -/
structure HandedOver (inputBuffer : Nat → Nat → SAMPLE) (s : State) : Prop where
  played : s.played = (List.range s.played.length).map (block inputBuffer)
  behind : s.played.length + s.play.tokens ≤ s.recorded
  ahead : s.recorded + s.record.tokens ≤ s.played.length + 1
  record_inside : ∀ c, s.record.access = some c → c < BUFFER_SIZE
  play_inside : ∀ c, s.play.access = some c → c < BUFFER_SIZE
  live : recordCallback inputBuffer s ≠ none ∨ playCallback s ≠ none

/-- In every run that starts with these counts. -/
def HandsOver (readDone writeDone : Nat) : Prop :=
  ∀ inputBuffer sched s, Sched.run (step inputBuffer) sched (init readDone writeDone) = some s →
    HandedOver inputBuffer s

/-- A callback whose pointer has moved by `ptr`. -/
def Pc.At (ptr : Nat) : Pc → Prop
  | .idle => True
  | .left i => ptr = i ∧ i ≤ BUFFER_SIZE ∧ i % 2 = 0
  | .right i => ptr = i + 1 ∧ i < BUFFER_SIZE ∧ i % 2 = 0

/-- The one token is with the callback that has a block to copy, or waits for it. -/
structure Inv (inputBuffer : Nat → Nat → SAMPLE) (s : State) : Prop where
  tokens : s.readDone + s.writeDone + s.record.tokens + s.play.tokens = 1
  posts : s.recorded = s.played.length + s.writeDone + s.play.tokens
  record_at : s.record.At s.rptr
  play_at : s.play.At s.wptr
  stored : s.record.tokens = 1 → ∀ j < s.rptr, s.recordedSamples j = inputBuffer s.recorded j
  waiting : s.writeDone + s.play.tokens = 1 →
    ∀ j < BUFFER_SIZE, s.recordedSamples j = inputBuffer s.played.length j
  copied : s.play.tokens = 1 → ∀ j < s.wptr, s.outputBuffer j = inputBuffer s.played.length j
  played : s.played = (List.range s.played.length).map (block inputBuffer)

section Invariant

variable {inputBuffer : Nat → Nat → SAMPLE} {s s' : State}

theorem init_inv (inputBuffer : Nat → Nat → SAMPLE) : Inv inputBuffer (init 1 0) := by
  refine ⟨rfl, rfl, trivial, trivial, ?_, ?_, ?_, rfl⟩ <;> exact fun h => by cases h

theorem update_agree {mem : Nat → SAMPLE} {x : Nat → SAMPLE} {n : Nat}
    (h : ∀ j < n, mem j = x j) : ∀ j < n + 1, update mem n (x n) j = x j := by
  intro j hj
  by_cases hlast : j = n
  · rw [hlast, Function.update_self]
  · rw [Function.update_of_ne hlast, h j (by omega)]

theorem recordCallback_inv (h : Inv inputBuffer s)
    (hs : recordCallback inputBuffer s = some s') : Inv inputBuffer s' := by
  have ht := h.tokens
  have hposts := h.posts
  have hat := h.record_at
  cases hpc : s.record with
  | idle =>
    simp only [recordCallback, hpc] at hs
    split at hs
    · cases hs
    · rename_i n hn
      cases hs
      rw [hpc, tokens_idle, hn] at ht
      refine { h with
        tokens := by simp only [tokens_left]; omega
        record_at := ⟨rfl, Nat.zero_le _, rfl⟩
        stored := fun _ j hj => absurd hj (Nat.not_lt_zero j) }
  | left i =>
    simp only [recordCallback, hpc] at hs
    rw [hpc, tokens_left] at ht
    rw [hpc] at hat
    obtain ⟨hptr, hle, heven⟩ := hat
    split at hs
    · rename_i hlt
      cases hs
      refine { h with
        tokens := ht
        record_at := ⟨congrArg (· + 1) hptr, hlt, heven⟩
        stored := fun _ => ?_
        waiting := fun hw => by dsimp only at hw; omega }
      dsimp only
      rw [← hptr]
      exact update_agree (h.stored (by rw [hpc, tokens_left]))
    · cases hs
      have hfull : s.rptr = BUFFER_SIZE := by omega
      have hlength : s.recorded = s.played.length := by omega
      have hstored := h.stored (by rw [hpc, tokens_left])
      rw [hfull, hlength] at hstored
      refine { h with
        tokens := by simp only [tokens_idle]; omega
        posts := by dsimp only; omega
        record_at := trivial
        stored := fun h0 => by cases h0
        waiting := fun _ => hstored }
  | right i =>
    simp only [recordCallback, hpc] at hs
    rw [hpc, tokens_right] at ht
    rw [hpc] at hat
    obtain ⟨hptr, hlt, heven⟩ := hat
    have hB : BUFFER_SIZE = 1060 := rfl
    cases hs
    refine { h with
      tokens := by rwa [tokens_left]
      record_at := ?_
      stored := fun _ => ?_
      waiting := fun hw => by dsimp only at hw; omega }
    · dsimp only
      rw [u32_of_lt (by omega)]
      exact ⟨by omega, by omega, by omega⟩
    · dsimp only
      rw [← hptr]
      exact update_agree (h.stored (by rw [hpc, tokens_right]))

theorem playCallback_inv (h : Inv inputBuffer s) (hs : playCallback s = some s') :
    Inv inputBuffer s' := by
  have ht := h.tokens
  have hposts := h.posts
  have hat := h.play_at
  cases hpc : s.play with
  | idle =>
    simp only [playCallback, hpc] at hs
    split at hs
    · cases hs
    · rename_i n hn
      cases hs
      rw [hpc, tokens_idle, hn] at ht hposts
      refine { h with
        tokens := by simp only [tokens_left]; omega
        posts := by simp only [tokens_left]; omega
        play_at := ⟨rfl, Nat.zero_le _, rfl⟩
        waiting := fun _ => h.waiting (by rw [hpc, tokens_idle, hn]; omega)
        copied := fun _ j hj => absurd hj (Nat.not_lt_zero j) }
  | left i =>
    simp only [playCallback, hpc] at hs
    rw [hpc, tokens_left] at ht hposts
    rw [hpc] at hat
    obtain ⟨hptr, hle, heven⟩ := hat
    have hwaiting := h.waiting (by rw [hpc, tokens_left]; omega)
    have hcopied := h.copied (by rw [hpc, tokens_left])
    split at hs
    · rename_i hlt
      cases hs
      refine { h with
        tokens := ht
        posts := hposts
        play_at := ⟨congrArg (· + 1) hptr, hlt, heven⟩
        waiting := fun _ => hwaiting
        copied := fun _ => ?_ }
      dsimp only
      rw [hwaiting i hlt, ← hptr]
      exact update_agree hcopied
    · cases hs
      have hfull : s.wptr = BUFFER_SIZE := by omega
      have hblock : (List.range s.wptr).map s.outputBuffer = block inputBuffer s.played.length := by
        rw [hfull, block]
        refine List.map_congr_left ?_
        intro j hj
        exact hcopied j (by rw [hfull]; exact List.mem_range.mp hj)
      refine { h with
        tokens := by simp only [tokens_idle]; omega
        posts := by simp only [tokens_idle, List.length_append, List.length_singleton]; omega
        play_at := trivial
        waiting := fun h0 => by simp only [tokens_idle] at h0; omega
        copied := fun h0 => by cases h0
        played := ?_ }
      dsimp only
      rw [List.length_append, List.length_singleton, List.range_succ, List.map_append, hblock,
        ← h.played, List.map_singleton]
  | right i =>
    simp only [playCallback, hpc] at hs
    rw [hpc, tokens_right] at ht hposts
    rw [hpc] at hat
    obtain ⟨hptr, hlt, heven⟩ := hat
    have hB : BUFFER_SIZE = 1060 := rfl
    have hwaiting := h.waiting (by rw [hpc, tokens_right]; omega)
    cases hs
    refine { h with
      tokens := by rwa [tokens_left]
      posts := by rwa [tokens_left]
      play_at := ?_
      waiting := fun _ => hwaiting
      copied := fun _ => ?_ }
    · dsimp only
      rw [u32_of_lt (by omega)]
      exact ⟨by omega, by omega, by omega⟩
    · dsimp only
      rw [hwaiting (i + 1) (by omega), ← hptr]
      exact update_agree (h.copied (by rw [hpc, tokens_right]))

theorem step_inv (t : Thread) (s s' : State) (h : Inv inputBuffer s)
    (hs : step inputBuffer t s = some s') : Inv inputBuffer s' := by
  cases t with
  | record => exact recordCallback_inv h hs
  | play => exact playCallback_inv h hs

theorem recordCallback_none (h : recordCallback inputBuffer s = none) :
    s.record = .idle ∧ s.readDone = 0 := by
  cases hpc : s.record with
  | idle =>
    simp only [recordCallback, hpc] at h
    split at h
    · exact ⟨rfl, by assumption⟩
    · cases h
  | left i =>
    simp only [recordCallback, hpc] at h
    split at h <;> cases h
  | right i =>
    simp only [recordCallback, hpc] at h
    cases h

theorem playCallback_none (h : playCallback s = none) : s.play = .idle ∧ s.writeDone = 0 := by
  cases hpc : s.play with
  | idle =>
    simp only [playCallback, hpc] at h
    split at h
    · exact ⟨rfl, by assumption⟩
    · cases h
  | left i =>
    simp only [playCallback, hpc] at h
    split at h <;> cases h
  | right i =>
    simp only [playCallback, hpc] at h
    cases h

theorem access_lt {ptr : Nat} {pc : Pc} (h : pc.At ptr) {c : Nat} (hc : pc.access = some c) :
    c < BUFFER_SIZE := by
  have hB : BUFFER_SIZE = 1060 := rfl
  cases pc with
  | idle => cases hc
  | left i =>
    rw [Pc.access] at hc
    split at hc
    · cases hc
      assumption
    · cases hc
  | right i =>
    cases hc
    obtain ⟨-, hlt, heven⟩ := h
    omega

theorem Inv.handedOver (h : Inv inputBuffer s) : HandedOver inputBuffer s := by
  have ht := h.tokens
  have hposts := h.posts
  refine ⟨h.played, by omega, by omega, fun c => access_lt h.record_at,
    fun c => access_lt h.play_at, ?_⟩
  by_contra hblocked
  rw [not_or, not_not, not_not] at hblocked
  obtain ⟨hrecord, hread⟩ := recordCallback_none hblocked.1
  obtain ⟨hplay, hwrite⟩ := playCallback_none hblocked.2
  rw [hrecord, hplay, hread, hwrite] at ht
  cases ht

end Invariant

/-! ## Other counts -/

section Counts

variable (inputBuffer : Nat → Nat → SAMPLE)

/-- A first call of `recordCallback`, while it runs and when it has returned. -/
structure FirstCall (n : Nat) (s : State) : Prop where
  readDone : s.readDone = n
  played : s.played = []
  recorded : s.record = .idle → s.recorded = 1
  record : s.record.At s.rptr
  running : s.record ≠ .idle → s.recorded = 0

def left_over (s : State) : Nat :=
  match s.record with
  | .idle => 0
  | .left i => 2 * (BUFFER_SIZE - i) + 1
  | .right i => 2 * (BUFFER_SIZE - i)

theorem firstCall_step {n : Nat} {s : State} (h : FirstCall n s) (hrun : s.record ≠ .idle) :
    ∃ s', recordCallback inputBuffer s = some s' ∧ FirstCall n s' ∧
      (s'.record = .idle ∨ left_over s' < left_over s) := by
  have hB : BUFFER_SIZE = 1060 := rfl
  have hat := h.record
  have hzero := h.running hrun
  cases hpc : s.record with
  | idle => exact absurd hpc hrun
  | left i =>
    rw [hpc] at hat
    obtain ⟨hptr, hle, heven⟩ := hat
    by_cases hlt : i < BUFFER_SIZE
    · simp only [recordCallback, hpc, if_pos hlt]
      refine ⟨_, rfl, ⟨h.readDone, h.played, nofun,
        ⟨congrArg (· + 1) hptr, hlt, heven⟩, fun _ => hzero⟩, .inr ?_⟩
      simp only [left_over, hpc]
      omega
    · simp only [recordCallback, hpc, if_neg hlt]
      exact ⟨_, rfl, ⟨h.readDone, h.played, fun _ => congrArg (· + 1) hzero, trivial,
        fun h0 => absurd rfl h0⟩, .inl rfl⟩
  | right i =>
    rw [hpc] at hat
    obtain ⟨hptr, hlt, heven⟩ := hat
    simp only [recordCallback, hpc]
    rw [u32_of_lt (by omega)]
    refine ⟨_, rfl, ⟨h.readDone, h.played, nofun,
      ⟨?_, by omega, by omega⟩, fun _ => hzero⟩, .inr ?_⟩
    · dsimp only
      omega
    simp only [left_over, hpc]
    omega

/-- With two tokens `recordCallback` overwrites what has not been played. -/
theorem not_ahead (n : Nat) :
    ∃ sched s, Sched.run (step inputBuffer) sched (init (n + 2) 0) = some s ∧
      ¬s.recorded + s.record.tokens ≤ s.played.length + 1 := by
  let started : State := { init (n + 2) 0 with readDone := n + 1, record := .left 0 }
  have hstart : step inputBuffer .record (init (n + 2) 0) = some started := rfl
  have hfirst : FirstCall (n + 1) started :=
    ⟨rfl, rfl, nofun, ⟨rfl, Nat.zero_le _, rfl⟩, fun _ => rfl⟩
  have hreturns : ∃ sched s, Sched.run (step inputBuffer) sched started = some s ∧
      FirstCall (n + 1) s ∧ s.record = .idle :=
    Sched.exists_run_until (t := Thread.record) left_over
      (fun s hs hne => firstCall_step inputBuffer hs hne) started hfirst
  obtain ⟨sched, s, hrun, hcall, hidle⟩ := hreturns
  have hagain : step inputBuffer .record s =
      some { s with readDone := n, record := .left 0, rptr := 0 } := by
    simp only [step, recordCallback, hidle, hcall.readDone]
  refine ⟨_, _, Sched.run_trans (Sched.run_single hstart)
    (Sched.run_trans hrun (Sched.run_single hagain)), ?_⟩
  dsimp only
  rw [hcall.recorded hidle, hcall.played, tokens_left]
  exact Nat.not_succ_le_self 1

end Counts

/-- **The counts.** Every block is handed over once in every run, if and only if `readDone` starts
with one and `writeDone` with none. -/
theorem handsOver_iff (readDone writeDone : Nat) :
    HandsOver readDone writeDone ↔ readDone = 1 ∧ writeDone = 0 := by
  constructor
  · intro h
    have hwrite : writeDone = 0 := by
      by_contra hne
      obtain ⟨n, rfl⟩ := Nat.exists_eq_succ_of_ne_zero hne
      -- `playCallback` plays a block that has not been recorded
      have hplay := h (fun _ _ => 0) [.play] _ rfl
      exact absurd hplay.behind (Nat.not_succ_le_zero 0)
    subst hwrite
    refine ⟨?_, rfl⟩
    match readDone with
    | 0 =>
      have hblocked := h (fun _ _ => 0) [] _ rfl
      exact (hblocked.live.elim (· rfl) (· rfl)).elim
    | 1 => rfl
    | n + 2 =>
      obtain ⟨sched, s, hrun, hahead⟩ := not_ahead (fun _ _ => 0) n
      exact absurd (h _ sched s hrun).ahead hahead
  · rintro ⟨rfl, rfl⟩ inputBuffer sched s hrun
    exact (Sched.run_invariant step_inv (init_inv inputBuffer) hrun).handedOver

end OneBuffer
end SoundScreen
