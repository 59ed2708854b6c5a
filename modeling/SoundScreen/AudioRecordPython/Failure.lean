import SoundScreen.AudioRecordPython.Progress

/-!
# SoundScreen.AudioRecordPython.Failure

The failure path of `playCallback`. A call of the Python function that returns `NULL` ends the
callback with the token of the semaphores and the GIL still taken and with `main`'s references to
`pFunc` and `pModule` released; `recordCallback` then waits for good (`aborted_holds`,
`aborted_not_served`).

`balanced_iff`: every run is balanced exactly when no call returns `NULL`.
-/

namespace SoundScreen
namespace AudioRecordPython

/-- The callback is not between its `sem_wait` and its return. -/
def RecordPc.Outside (pc : RecordPc) : Prop := pc = .idle ∨ pc = .wait

def PlayPc.Outside (pc : PlayPc) : Prop := pc = .idle ∨ pc = .wait ∨ pc = .aborted

/-- The three resources of the callbacks balance. -/
structure Balanced (s : State) : Prop where
  semaphores : s.record.pc.Outside → s.play.pc.Outside → s.readDone + s.writeDone = 1
  gil : s.play.pc.Outside → s.gil = 0
  references : (cleanPython s).pFunc = 0 ∧ (cleanPython s).pModule = 0

/-- A `recordCallback` that waits for `readDone` is still posted to. -/
def Served (env : Env) (s : State) : Prop :=
  s.record.pc = .wait → ∃ sched s', Sched.run (step env) sched s = some s' ∧
    s'.record = s.record ∧ 0 < s'.readDone

variable {env : Env} {s : State}

theorem returned_null (h : Inv env s) (hpc : s.play.pc = .failed ∨ s.play.pc = .aborted) :
    env.outcome s.played.length = none := by
  have hok := h.play_ok
  rcases hpc with hpc | hpc
  · simp only [PlayFrame.Ok, hpc] at hok
    exact hok
  · simp only [PlayFrame.Ok, hpc] at hok
    exact hok

theorem balanced_of_not_aborted (h : Inv env s) (ha : s.play.pc ≠ .aborted) : Balanced s := by
  have ht := h.tokens
  have hf := h.pFunc
  have hm := h.pModule
  have hrefs : s.play.pc.holding.refs = 1 := by
    cases hpc : s.play.pc <;> first | rfl | exact absurd hpc ha
  refine ⟨?_, ?_, ?_⟩
  · rintro (hr | hr) (hp | hp | hp)
    all_goals first
      | exact absurd hp ha
      | (simp only [hr, hp, RecordPc.tokens, PlayPc.holding] at ht; exact ht)
  · rintro (hp | hp | hp)
    · rw [h.gil, hp]
      rfl
    · rw [h.gil, hp]
      rfl
    · exact absurd hp ha
  · simp only [cleanPython]
    omega

theorem served_of_outcomes (h : Inv env s) (hall : ∀ k, env.outcome k ≠ none) : Served env s := by
  intro hpc
  obtain ⟨sched, s', hs', ⟨hinv, hrec, -⟩, hcase⟩ := exists_posted h (by rw [hpc]; rfl)
  refine ⟨sched, s', hs', hrec, ?_⟩
  rcases hcase with hrd | ha
  · exact hrd
  · exact absurd (returned_null hinv (.inr ha)) (hall _)

/-- What a failed call leaves behind. -/
theorem aborted_holds (h : Inv env s) (ha : s.play.pc = .aborted) (hi : s.record.pc = .idle) :
    s.readDone = 0 ∧ s.writeDone = 0 ∧ s.gil = 1 ∧ (cleanPython s).pFunc = -1 ∧
      (cleanPython s).pModule = -1 := by
  have ht := h.tokens
  have hg := h.gil
  have hf := h.pFunc
  have hm := h.pModule
  simp only [ha, hi, PlayPc.holding, RecordPc.tokens] at ht hg hf hm
  simp only [cleanPython]
  omega

/-- A call that returns `NULL` is reached. -/
theorem exists_aborted {k : Nat} (hk : env.outcome k = none) :
    ∃ sched s, run env sched = some s ∧ s.play.pc = .aborted ∧ s.record.pc = .idle := by
  obtain ⟨sched, s, hs, hcase⟩ := exists_rounds env (k + 2)
  rcases hcase with hb | ha
  · have hlen := hb.played
    have hget := List.getElem?_eq_getElem (show k < s.played.length by omega)
    obtain ⟨data, hdata, -⟩ := hb.inv.played k _ hget
    rw [hk] at hdata
    cases hdata
  · exact ⟨sched, s, hs, ha⟩

/-- The next `recordCallback` after a failed call and the play stream are both stopped. -/
theorem aborted_not_served (h : Inv env s) (ha : s.play.pc = .aborted)
    (hi : s.record.pc = .idle) :
    ∃ s', step env .record s = some s' ∧ s'.record.pc = .wait ∧
      step env .record s' = none ∧ step env .play s' = none := by
  obtain ⟨hrd, -⟩ := aborted_holds h ha hi
  refine ⟨{ s with record := RecordFrame.entry }, ?_, rfl, ?_, ?_⟩
  · simp only [step, recordCallback, hi]
  · simp only [step, recordCallback, RecordFrame.entry, hrd]
  · simp only [step, playCallback, ha]

/-- **The failure path.** As long as no call of the Python function returned `NULL`, the
semaphores, the GIL and the references balance. All runs are balanced, and every waiting
`recordCallback` is posted to, exactly when no call returns `NULL`. -/
theorem balanced_iff (env : Env) :
    (∀ sched s, run env sched = some s → (∀ k, k ≤ s.played.length → env.outcome k ≠ none) →
      Balanced s) ∧
    ((∀ sched s, run env sched = some s → Balanced s ∧ Served env s) ↔
      ∀ k, env.outcome k ≠ none) := by
  refine ⟨?_, ?_, ?_⟩
  · intro sched s hs hall
    have hinv := run_inv hs
    exact balanced_of_not_aborted hinv fun ha => hall _ le_rfl (returned_null hinv (.inr ha))
  · intro hbal k hk
    obtain ⟨sched, s, hs, ha, hi⟩ := exists_aborted hk
    have hgil := (hbal sched s hs).1.gil (.inr (.inr ha))
    rw [(aborted_holds (run_inv hs) ha hi).2.2.1] at hgil
    cases hgil
  · intro hall sched s hs
    have hinv := run_inv hs
    exact ⟨balanced_of_not_aborted hinv fun ha => hall _ (returned_null hinv (.inr ha)),
      served_of_outcomes hinv hall⟩

/-- Every call raises an exception. -/
def raising : Env := ⟨fun _ _ => 0, fun _ _ _ _ _ _ => none, fun _ _ => none⟩

/-- After the first failed call no semaphore has a token, the GIL is taken, `cleanPython` releases
what `main` no longer holds, and the next `recordCallback` is stopped for good. -/
theorem failed_call_unbalanced :
    (∃ sched s, run raising sched = some s ∧ s.play.pc = .aborted ∧
      s.readDone + s.writeDone = 0 ∧ s.gil = 1 ∧ (cleanPython s).pFunc = -1 ∧
      (cleanPython s).pModule = -1 ∧
      ∃ s', step raising .record s = some s' ∧ s'.record.pc = .wait ∧
        step raising .record s' = none ∧ step raising .play s' = none) ∧
    ¬ (∀ env sched s, run env sched = some s → Balanced s ∧ Served env s) := by
  obtain ⟨sched, s, hs, ha, hi⟩ := exists_aborted (show raising.outcome 0 = none from rfl)
  obtain ⟨hrd, hwd, hg, hf, hm⟩ := aborted_holds (run_inv hs) ha hi
  refine ⟨⟨sched, s, hs, ha, by omega, hg, hf, hm, aborted_not_served (run_inv hs) ha hi⟩, ?_⟩
  intro hall
  have hgil := (hall raising sched s hs).1.gil (.inr (.inr ha))
  rw [hg] at hgil
  cases hgil

end AudioRecordPython
end SoundScreen
