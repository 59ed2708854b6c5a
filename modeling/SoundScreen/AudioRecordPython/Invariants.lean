import Mathlib.Tactic.Linarith
import SoundScreen.AudioRecordPython.Callbacks

/-!
# SoundScreen.AudioRecordPython.Invariants

What holds in every reachable state of the two callbacks, whatever the Python function returns.

`Inv`: one token is shared by the two semaphores and the two callbacks; what a `playCallback`
holds (the token, the GIL, `main`'s references) is a function of where it stands (`holding`); the
memory holds the chunk that is handed over as long as the filter reads it; every chunk played is
what was loaded from the array the filter returned for the chunk of the same number.

`run_inv`: it holds after every schedule, also of calls that fail.
-/

namespace SoundScreen
namespace AudioRecordPython

/-- What a callback holds: the token of the two semaphores; a post made by a call that has not
returned; the GIL; `main`'s reference to `pFunc` and to `pModule`, released by no one else. -/
structure Holding where
  tokens : Nat
  posted : Nat
  gil : Nat
  refs : Int

@[simp] def PlayPc.holding : PlayPc → Holding
  | .idle => ⟨0, 0, 0, 1⟩
  | .wait => ⟨0, 0, 0, 1⟩
  | .ensure => ⟨1, 0, 0, 1⟩
  | .args => ⟨1, 0, 1, 1⟩
  | .call _ => ⟨1, 0, 1, 1⟩
  | .decref => ⟨1, 0, 1, 1⟩
  | .release => ⟨1, 0, 1, 1⟩
  | .left _ => ⟨1, 0, 0, 1⟩
  | .right _ => ⟨1, 0, 0, 1⟩
  | .ret => ⟨0, 1, 0, 1⟩
  | .failed => ⟨1, 0, 1, 1⟩
  | .aborted => ⟨1, 0, 1, 0⟩

@[simp] def RecordPc.tokens : RecordPc → Nat
  | .idle => 0
  | .wait => 0
  | .left _ => 1
  | .right _ => 1
  | .ret => 0

@[simp] def RecordPc.posted : RecordPc → Nat
  | .idle => 0
  | .wait => 0
  | .left _ => 0
  | .right _ => 0
  | .ret => 1

/-- `& (BUFFER_SIZE - 1)` keeps an index of the buffer. -/
theorem mask_of_lt {i : Nat} (h : i < BUFFER_SIZE) : i &&& (BUFFER_SIZE - 1) = i := by
  have hB : BUFFER_SIZE = 2 ^ 13 := rfl
  rw [hB, Nat.and_two_pow_sub_one_eq_mod]
  exact Nat.mod_eq_of_lt h

/-- The memory holds the first `n` samples of chunk `k`. -/
def Stored (env : Env) (mem : Nat → SAMPLE) (k n : Nat) : Prop :=
  ∀ j, j < n → mem j = env.inputBuffer k j

/-- The locals of `recordCallback`. -/
def RecordFrame.Ok (f : RecordFrame) : Prop :=
  match f.pc with
  | .idle => True
  | .wait => f.widx = 0 ∧ f.rptr = 0
  | .left i => f.widx = 2 * i ∧ f.rptr = 2 * i ∧ i ≤ FRAMES_PER_SAMPLE
  | .right i => f.widx = 2 * i + 1 ∧ f.rptr = 2 * i + 1 ∧ i < FRAMES_PER_SAMPLE
  | .ret => True

/-- `n` samples of the array returned for chunk `k` have been copied out. -/
structure PlayFrame.Copied (env : Env) (k n : Nat) (out : List SAMPLE) (f : PlayFrame) : Prop where
  ridx : f.ridx = n
  released : f.refs = 0
  result : ∃ data, f.pValue = some data ∧ env.outcome k = some data ∧
    out = (List.range n).map (env.loaded k data)

/-- The locals of call `k` of `playCallback`, which has written `out`. -/
def PlayFrame.Ok (env : Env) (k : Nat) (out : List SAMPLE) (f : PlayFrame) : Prop :=
  match f.pc with
  | .idle => True
  | .wait => f.ridx = 0 ∧ out = []
  | .ensure => f.ridx = 0 ∧ out = []
  | .args => f.ridx = 0 ∧ out = []
  | .call i => f.ridx = 0 ∧ out = [] ∧ i ≤ BUFFER_SIZE ∧
      f.raw_data = (List.range i).map (env.inputBuffer k)
  | .decref => f.ridx = 0 ∧ out = [] ∧ f.refs = 1 ∧
      ∃ data, f.pValue = some data ∧ env.outcome k = some data
  | .release => f.Copied env k 0 out
  | .left i => f.Copied env k (2 * i) out ∧ i ≤ FRAMES_PER_SAMPLE
  | .right i => f.Copied env k (2 * i + 1) out ∧ i < FRAMES_PER_SAMPLE
  | .ret => ∃ data, env.outcome k = some data ∧
      out = (List.range BUFFER_SIZE).map (env.loaded k data)
  | .failed => env.outcome k = none
  | .aborted => env.outcome k = none

structure Inv (env : Env) (s : State) : Prop where
  record_ok : s.record.Ok
  play_ok : s.play.Ok env s.played.length s.outputBuffer
  tokens : s.readDone + s.writeDone + s.record.pc.tokens + s.play.pc.holding.tokens = 1
  posts : s.recorded + s.record.pc.posted =
    s.played.length + s.play.pc.holding.posted + s.writeDone + s.play.pc.holding.tokens
  gil : s.gil = s.play.pc.holding.gil
  pFunc : s.pFunc = s.play.pc.holding.refs
  pModule : s.pModule = s.play.pc.holding.refs
  stored : s.record.pc.tokens = 1 → Stored env s.recordedSamples s.recorded s.record.rptr
  waiting : s.writeDone + s.play.pc.holding.tokens = 1 →
    Stored env s.recordedSamples (s.played.length + s.play.pc.holding.posted) BUFFER_SIZE
  played : ∀ k out, s.played[k]? = some out → ∃ data, env.outcome k = some data ∧
    out = (List.range BUFFER_SIZE).map (env.loaded k data)

variable {env : Env} {s s' : State}

theorem init_inv (env : Env) : Inv env init := by
  constructor <;> simp [init, RecordFrame.Ok, PlayFrame.Ok]

/-! ## `recordCallback` -/

theorem stored_update {mem : Nat → SAMPLE} {k n : Nat} (h : Stored env mem k n) :
    Stored env (Function.update mem n (env.inputBuffer k n)) k (n + 1) := by
  intro j hj
  by_cases he : j = n
  · rw [he, Function.update_self]
  · rw [Function.update_of_ne he]
    exact h j (by omega)

/-- One copy of `recordCallback`, from either half of the loop body. -/
theorem store_inv (h : Inv env s) {n : Nat} {pc : RecordPc} (hidx : s.record.widx = n)
    (hptr : s.record.rptr = n) (hn : n < BUFFER_SIZE) (ht : s.record.pc.tokens = 1)
    (ht' : pc.tokens = 1) (hp : s.record.pc.posted = 0) (hp' : pc.posted = 0)
    (hok : (s.record.copied pc).Ok) :
    Inv env { s with
      recordedSamples := Function.update s.recordedSamples s.record.cell
        (env.inputBuffer s.recorded s.record.rptr)
      record := s.record.copied pc } := by
  have htok := h.tokens
  have hposts := h.posts
  refine { h with record_ok := hok, tokens := ?_, posts := ?_, stored := ?_, waiting := ?_ }
  · simp only [RecordFrame.copied, ht']
    omega
  · simp only [RecordFrame.copied, hp']
    omega
  · intro _
    have hcell : s.record.cell = n := by rw [RecordFrame.cell, hidx, mask_of_lt hn]
    have hst := h.stored ht
    rw [hptr] at hst
    simp only [RecordFrame.copied, hcell, hptr]
    exact stored_update hst
  · intro hw
    simp only at hw
    omega

theorem recordCallback_inv (h : Inv env s) (hs : recordCallback env s = some s') :
    Inv env s' := by
  have hF : FRAMES_PER_SAMPLE = 4096 := rfl
  have hB : BUFFER_SIZE = 8192 := rfl
  have hok := h.record_ok
  have ht := h.tokens
  have hp := h.posts
  cases hpc : s.record.pc with
  | idle =>
    simp only [recordCallback, hpc] at hs
    cases hs
    simp only [hpc, RecordPc.tokens, RecordPc.posted] at ht hp
    refine { h with record_ok := ⟨rfl, rfl⟩, tokens := ht, posts := hp, stored := ?_ }
    intro h0
    cases h0
  | wait =>
    simp only [recordCallback, hpc] at hs
    simp only [RecordFrame.Ok, hpc] at hok
    simp only [hpc, RecordPc.tokens, RecordPc.posted] at ht hp
    split at hs
    · cases hs
    · rename_i n hn
      cases hs
      refine { h with record_ok := ?_, tokens := ?_, posts := hp, stored := ?_ }
      · exact ⟨hok.1, hok.2, Nat.zero_le _⟩
      · simp only [RecordFrame.goto, RecordPc.tokens]
        omega
      · intro _ j hj
        simp only [RecordFrame.goto, hok.2] at hj
        omega
  | left i =>
    simp only [recordCallback, hpc] at hs
    simp only [RecordFrame.Ok, hpc] at hok
    obtain ⟨hidx, hptr, hle⟩ := hok
    split at hs
    · rename_i hi
      cases hs
      refine store_inv h hidx hptr (by omega) (by rw [hpc]; rfl) rfl (by rw [hpc]; rfl) rfl ?_
      exact ⟨by simp only [RecordFrame.copied, hidx]; exact u32_of_lt (by omega),
        by simp only [RecordFrame.copied, hptr], hi⟩
    · rename_i hi
      cases hs
      have hst := h.stored (by rw [hpc]; rfl)
      rw [hptr] at hst
      simp only [hpc, RecordPc.tokens, RecordPc.posted] at ht hp
      refine { h with record_ok := trivial, tokens := ?_, posts := ?_, stored := ?_, waiting := ?_ }
      · simp only [RecordFrame.goto, RecordPc.tokens]
        omega
      · simp only [RecordFrame.goto, RecordPc.posted]
        omega
      · intro h0
        cases h0
      · intro _ j hj
        rw [show s.played.length + s.play.pc.holding.posted = s.recorded by omega]
        exact hst j (by omega)
  | right i =>
    simp only [recordCallback, hpc] at hs
    simp only [RecordFrame.Ok, hpc] at hok
    obtain ⟨hidx, hptr, hlt⟩ := hok
    cases hs
    rw [u32_of_lt (by omega : i + 1 < 2 ^ 32)]
    refine store_inv h hidx hptr (by omega) (by rw [hpc]; rfl) rfl (by rw [hpc]; rfl) rfl ?_
    exact ⟨by simp only [RecordFrame.copied, hidx]; exact u32_of_lt (by omega),
      by simp only [RecordFrame.copied, hptr]; omega, hlt⟩
  | ret =>
    simp only [recordCallback, hpc] at hs
    cases hs
    simp only [hpc, RecordPc.tokens, RecordPc.posted] at ht hp
    refine { h with record_ok := trivial, tokens := ht, posts := ?_, stored := ?_ }
    · simp only [RecordFrame.goto, RecordPc.posted]
      omega
    · intro h0
      cases h0

/-! ## `playCallback` -/

/-- A step of `playCallback` that neither takes nor gives back anything. -/
theorem hold_inv (h : Inv env s) {f : PlayFrame} {out : List SAMPLE}
    (hh : f.pc.holding = s.play.pc.holding) (hok : f.Ok env s.played.length out) :
    Inv env { s with play := f, outputBuffer := out } := by
  refine { h with
    play_ok := hok, tokens := ?_, posts := ?_, gil := ?_, pFunc := ?_, pModule := ?_,
    waiting := ?_ }
  · rw [hh]; exact h.tokens
  · rw [hh]; exact h.posts
  · rw [hh]; exact h.gil
  · rw [hh]; exact h.pFunc
  · rw [hh]; exact h.pModule
  · rw [hh]; exact h.waiting

/-- One copy of `playCallback`, from either half of the loop body. -/
theorem load_copied {k n : Nat} {out : List SAMPLE} {f : PlayFrame} (pc : PlayPc)
    (h : f.Copied env k n out) (hn : n < BUFFER_SIZE) :
    (f.copied pc).Copied env k (n + 1) (out ++ [f.load (env.freed k)]) := by
  have hB : BUFFER_SIZE = 8192 := rfl
  obtain ⟨hidx, href, data, hval, hres, hout⟩ := h
  refine ⟨?_, href, data, hval, hres, ?_⟩
  · simp only [PlayFrame.copied, hidx]
    exact u32_of_lt (by omega)
  · have hcell : f.cell = n := by rw [PlayFrame.cell, hidx, mask_of_lt hn]
    have hload : f.load (env.freed k) = env.loaded k data n := by
      simp only [PlayFrame.load, href, if_true, hval, hcell, Option.getD_some, Env.loaded]
    rw [hload, hout, List.range_succ, List.map_append]
    rfl

theorem playCallback_inv (h : Inv env s) (hs : playCallback env s = some s') : Inv env s' := by
  have hF : FRAMES_PER_SAMPLE = 4096 := rfl
  have hB : BUFFER_SIZE = 8192 := rfl
  have hok := h.play_ok
  have ht := h.tokens
  have hp := h.posts
  have hg := h.gil
  have hf := h.pFunc
  have hm := h.pModule
  have hw := h.waiting
  cases hpc : s.play.pc with
  | idle =>
    simp only [playCallback, hpc] at hs
    cases hs
    exact hold_inv h (by rw [hpc]; rfl) ⟨rfl, rfl⟩
  | wait =>
    simp only [playCallback, hpc] at hs
    simp only [PlayFrame.Ok, hpc] at hok
    simp only [hpc, PlayPc.holding] at ht hp hg hf hm hw
    split at hs
    · cases hs
    · rename_i n hn
      cases hs
      refine { h with
        play_ok := hok, tokens := ?_, posts := ?_, gil := hg, pFunc := hf, pModule := hm,
        waiting := ?_ }
      · simp only [PlayFrame.goto, PlayPc.holding]
        omega
      · simp only [PlayFrame.goto, PlayPc.holding]
        omega
      · intro _
        exact hw (by omega)
  | ensure =>
    simp only [playCallback, hpc] at hs
    cases hs
    simp only [PlayFrame.Ok, hpc] at hok
    simp only [hpc, PlayPc.holding] at ht hp hg hf hm hw
    exact { h with
      play_ok := hok, tokens := ht, posts := hp, gil := congrArg (· + 1) hg, pFunc := hf,
      pModule := hm, waiting := hw }
  | args =>
    simp only [playCallback, hpc] at hs
    cases hs
    simp only [PlayFrame.Ok, hpc] at hok
    exact hold_inv h (by rw [hpc]; rfl) ⟨hok.1, hok.2, Nat.zero_le _, rfl⟩
  | call i =>
    simp only [playCallback, hpc] at hs
    simp only [PlayFrame.Ok, hpc] at hok
    obtain ⟨hidx, hout, hle, hread⟩ := hok
    split at hs
    · rename_i hi
      cases hs
      refine hold_inv h (by rw [hpc]; rfl) ⟨hidx, hout, hi, ?_⟩
      have hmem := hw (by rw [hpc] at ht ⊢; simp only [PlayPc.holding] at ht ⊢; omega) i hi
      rw [hpc] at hmem
      simp only [hread, hmem, List.range_succ, List.map_append]
      rfl
    · rename_i hi
      have hcall : env.callObject s.played.length s.play.raw_data FRAMES_PER_SAMPLE 2 4 48000 =
          env.outcome s.played.length := by
        rw [hread, show i = BUFFER_SIZE by omega]
        rfl
      split at hs
      · rename_i hnull
        cases hs
        exact hold_inv h (by rw [hpc]; rfl) (hcall.symm.trans hnull)
      · rename_i data hdata
        cases hs
        exact hold_inv h (by rw [hpc]; rfl) ⟨hidx, hout, rfl, data, rfl, hcall.symm.trans hdata⟩
  | decref =>
    simp only [playCallback, hpc] at hs
    cases hs
    simp only [PlayFrame.Ok, hpc] at hok
    obtain ⟨hidx, hout, href, data, hval, hres⟩ := hok
    refine hold_inv h (by rw [hpc]; rfl) ⟨hidx, ?_, data, hval, hres, hout⟩
    simp only [href]
  | release =>
    simp only [playCallback, hpc] at hs
    cases hs
    simp only [PlayFrame.Ok, hpc] at hok
    simp only [hpc, PlayPc.holding] at ht hp hg hf hm hw
    exact { h with
      play_ok := ⟨⟨hok.ridx, hok.released, hok.result⟩, Nat.zero_le _⟩, tokens := ht, posts := hp,
      gil := congrArg (· - 1) hg, pFunc := hf, pModule := hm, waiting := hw }
  | left i =>
    simp only [playCallback, hpc] at hs
    simp only [PlayFrame.Ok, hpc] at hok
    split at hs
    · rename_i hi
      cases hs
      exact hold_inv h (by rw [hpc]; rfl) ⟨load_copied _ hok.1 (by omega), hi⟩
    · rename_i hi
      cases hs
      obtain ⟨⟨-, -, data, -, hres, hout⟩, hle⟩ := hok
      simp only [hpc, PlayPc.holding] at ht hp hg hf hm hw
      refine { h with
        play_ok := ⟨data, hres, ?_⟩, tokens := ?_, posts := ?_, gil := hg, pFunc := hf,
        pModule := hm, waiting := ?_ }
      · rw [hout, show 2 * i = BUFFER_SIZE by omega]
      · simp only [PlayFrame.goto, PlayPc.holding]
        omega
      · simp only [PlayFrame.goto, PlayPc.holding]
        omega
      · intro h1
        simp only [PlayFrame.goto, PlayPc.holding] at h1
        omega
  | right i =>
    simp only [playCallback, hpc] at hs
    simp only [PlayFrame.Ok, hpc] at hok
    cases hs
    rw [u32_of_lt (by omega : i + 1 < 2 ^ 32)]
    have hlt := hok.2
    have hc := load_copied (.left (i + 1)) hok.1 (by omega)
    exact hold_inv h (by rw [hpc]; rfl) ⟨hc, hlt⟩
  | ret =>
    simp only [playCallback, hpc] at hs
    cases hs
    simp only [PlayFrame.Ok, hpc] at hok
    simp only [hpc, PlayPc.holding] at ht hp hg hf hm hw
    refine { h with
      play_ok := trivial, tokens := ht, posts := ?_, gil := hg, pFunc := hf, pModule := hm,
      waiting := ?_, played := ?_ }
    · simp only [PlayFrame.goto, PlayPc.holding, List.length_append, List.length_singleton]
      omega
    · simp only [PlayFrame.goto, PlayPc.holding, List.length_append, List.length_singleton]
      exact hw
    · intro k out hk
      by_cases hlt : k < s.played.length
      · rw [List.getElem?_append_left hlt] at hk
        exact h.played k out hk
      · rw [List.getElem?_append_right (by omega), List.getElem?_singleton] at hk
        split at hk
        · rename_i h0
          cases hk
          rw [show k = s.played.length by omega]
          exact hok
        · cases hk
  | failed =>
    simp only [playCallback, hpc] at hs
    cases hs
    simp only [PlayFrame.Ok, hpc] at hok
    simp only [hpc, PlayPc.holding] at ht hp hg hf hm hw
    exact { h with
      play_ok := hok, tokens := ht, posts := hp, gil := hg, pFunc := congrArg (· - 1) hf,
      pModule := congrArg (· - 1) hm, waiting := hw }
  | aborted =>
    simp only [playCallback, hpc] at hs
    cases hs

theorem step_inv (t : Thread) (s s' : State) (h : Inv env s) (hs : step env t s = some s') :
    Inv env s' := by
  cases t with
  | record => exact recordCallback_inv h hs
  | play => exact playCallback_inv h hs

theorem run_inv {sched : List Thread} (h : run env sched = some s) : Inv env s :=
  Sched.run_invariant step_inv (init_inv env) h

end AudioRecordPython
end SoundScreen
