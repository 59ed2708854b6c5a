import SoundScreen.AudioRecordPython.Invariants

/-!
# SoundScreen.AudioRecordPython.Progress

What the callbacks can still do from a reachable state.

* `exists_posted`: a `playCallback` scheduled alone gets to its `sem_post`, or to the return of a
  failed call.
* `exists_rounds`: for every `k` there is a run in which `k` chunks are played, or one in which a
  call fails.
-/

namespace SoundScreen
namespace AudioRecordPython

/-- Moves left until `recordCallback` returns. -/
def RecordPc.work : RecordPc → Nat
  | .idle => 2 * FRAMES_PER_SAMPLE + 3
  | .wait => 2 * FRAMES_PER_SAMPLE + 2
  | .left i => 2 * (FRAMES_PER_SAMPLE - i) + 1
  | .right i => 2 * (FRAMES_PER_SAMPLE - i)
  | .ret => 0

/-- Moves left until `playCallback` posts `readDone`. -/
def PlayPc.work : PlayPc → Nat
  | .ret => 2 * FRAMES_PER_SAMPLE + BUFFER_SIZE + 9
  | .idle => 2 * FRAMES_PER_SAMPLE + BUFFER_SIZE + 8
  | .wait => 2 * FRAMES_PER_SAMPLE + BUFFER_SIZE + 7
  | .ensure => 2 * FRAMES_PER_SAMPLE + BUFFER_SIZE + 6
  | .args => 2 * FRAMES_PER_SAMPLE + BUFFER_SIZE + 5
  | .call i => 2 * FRAMES_PER_SAMPLE + 4 + (BUFFER_SIZE - i)
  | .decref => 2 * FRAMES_PER_SAMPLE + 3
  | .release => 2 * FRAMES_PER_SAMPLE + 2
  | .left i => 2 * (FRAMES_PER_SAMPLE - i) + 1
  | .right i => 2 * (FRAMES_PER_SAMPLE - i)
  | .failed => 1
  | .aborted => 0

variable {env : Env} {s s' : State}

/-- A move of `recordCallback` is towards its return, or is the return. -/
theorem recordCallback_work (h : Inv env s) (hs : recordCallback env s = some s') :
    s'.play = s.play ∧ s'.played = s.played ∧
      (s'.recorded = s.recorded ∧ s'.record.pc.work < s.record.pc.work ∨
        s'.recorded = s.recorded + 1 ∧ s'.record.pc = .idle) := by
  have hF : FRAMES_PER_SAMPLE = 4096 := rfl
  have hok := h.record_ok
  cases hpc : s.record.pc with
  | idle =>
    simp only [recordCallback, hpc] at hs
    cases hs
    exact ⟨rfl, rfl, .inl ⟨rfl, by simp [RecordPc.work, RecordFrame.entry]⟩⟩
  | wait =>
    simp only [recordCallback, hpc] at hs
    split at hs
    · cases hs
    · cases hs
      exact ⟨rfl, rfl, .inl ⟨rfl, by simp [RecordPc.work, RecordFrame.goto]⟩⟩
  | left i =>
    simp only [recordCallback, hpc] at hs
    split at hs
    · cases hs
      exact ⟨rfl, rfl, .inl ⟨rfl, by simp [RecordPc.work, RecordFrame.copied]⟩⟩
    · cases hs
      exact ⟨rfl, rfl, .inl ⟨rfl, by simp [RecordPc.work, RecordFrame.goto]⟩⟩
  | right i =>
    simp only [RecordFrame.Ok, hpc] at hok
    simp only [recordCallback, hpc] at hs
    cases hs
    refine ⟨rfl, rfl, .inl ⟨rfl, ?_⟩⟩
    simp only [RecordPc.work, RecordFrame.copied, u32_of_lt (by omega : i + 1 < 2 ^ 32)]
    omega
  | ret =>
    simp only [recordCallback, hpc] at hs
    cases hs
    exact ⟨rfl, rfl, .inr ⟨rfl, rfl⟩⟩

/-- A move of `playCallback` is towards its `sem_post`, or is that post, or ends a failed call. -/
theorem playCallback_work (h : Inv env s) (hs : playCallback env s = some s') :
    s'.record = s.record ∧ s'.recorded = s.recorded ∧
      (0 < s'.readDone ∨ s'.play.pc = .aborted ∨ s'.play.pc.work < s.play.pc.work) := by
  have hF : FRAMES_PER_SAMPLE = 4096 := rfl
  have hB : BUFFER_SIZE = 8192 := rfl
  have hok := h.play_ok
  cases hpc : s.play.pc with
  | idle =>
    simp only [playCallback, hpc] at hs
    cases hs
    exact ⟨rfl, rfl, .inr (.inr (by simp [PlayPc.work, PlayFrame.entry]))⟩
  | wait =>
    simp only [playCallback, hpc] at hs
    split at hs
    · cases hs
    · cases hs
      exact ⟨rfl, rfl, .inr (.inr (by simp [PlayPc.work, PlayFrame.goto]))⟩
  | ensure =>
    simp only [playCallback, hpc] at hs
    cases hs
    exact ⟨rfl, rfl, .inr (.inr (by simp [PlayPc.work, PlayFrame.goto]))⟩
  | args =>
    simp only [playCallback, hpc] at hs
    cases hs
    exact ⟨rfl, rfl, .inr (.inr (by simp only [PlayPc.work]; omega))⟩
  | call i =>
    simp only [playCallback, hpc] at hs
    split at hs
    · cases hs
      exact ⟨rfl, rfl, .inr (.inr (by simp only [PlayPc.work]; omega))⟩
    · split at hs
      · cases hs
        exact ⟨rfl, rfl, .inr (.inr (by simp only [PlayPc.work]; omega))⟩
      · cases hs
        exact ⟨rfl, rfl, .inr (.inr (by simp only [PlayPc.work]; omega))⟩
  | decref =>
    simp only [playCallback, hpc] at hs
    cases hs
    exact ⟨rfl, rfl, .inr (.inr (by simp [PlayPc.work]))⟩
  | release =>
    simp only [playCallback, hpc] at hs
    cases hs
    exact ⟨rfl, rfl, .inr (.inr (by simp [PlayPc.work, PlayFrame.goto]))⟩
  | left i =>
    simp only [playCallback, hpc] at hs
    split at hs
    · cases hs
      exact ⟨rfl, rfl, .inr (.inr (by simp [PlayPc.work, PlayFrame.copied]))⟩
    · cases hs
      exact ⟨rfl, rfl, .inl (Nat.succ_pos _)⟩
  | right i =>
    simp only [PlayFrame.Ok, hpc] at hok
    simp only [playCallback, hpc] at hs
    cases hs
    have hlt := hok.2
    refine ⟨rfl, rfl, .inr (.inr ?_)⟩
    simp only [PlayPc.work, PlayFrame.copied, u32_of_lt (by omega : i + 1 < 2 ^ 32)]
    omega
  | ret =>
    simp only [playCallback, hpc] at hs
    cases hs
    exact ⟨rfl, rfl, .inr (.inr (by simp [PlayPc.work, PlayFrame.goto]))⟩
  | failed =>
    simp only [playCallback, hpc] at hs
    cases hs
    exact ⟨rfl, rfl, .inr (.inl rfl)⟩
  | aborted =>
    simp only [playCallback, hpc] at hs
    cases hs

/-- `recordCallback` can only be stopped by `sem_wait(&readDone)`. -/
theorem recordCallback_isSome (env : Env) (h : s.record.pc = .wait → s.readDone ≠ 0) :
    ∃ s', recordCallback env s = some s' := by
  cases hpc : s.record.pc with
  | wait =>
    cases hr : s.readDone with
    | zero => exact absurd hr (h hpc)
    | succ n => exact ⟨_, by simp only [recordCallback, hpc, hr]; rfl⟩
  | left i =>
    by_cases hi : i < FRAMES_PER_SAMPLE
    · exact ⟨_, by simp only [recordCallback, hpc, if_pos hi]; rfl⟩
    · exact ⟨_, by simp only [recordCallback, hpc, if_neg hi]; rfl⟩
  | _ => exact ⟨_, by simp only [recordCallback, hpc]; rfl⟩

/-- `playCallback` can only be stopped by `sem_wait(&writeDone)` and by a failed call. -/
theorem playCallback_isSome (env : Env) (h : s.play.pc = .wait → s.writeDone ≠ 0)
    (ha : s.play.pc ≠ .aborted) : ∃ s', playCallback env s = some s' := by
  cases hpc : s.play.pc with
  | wait =>
    cases hw : s.writeDone with
    | zero => exact absurd hw (h hpc)
    | succ n => exact ⟨_, by simp only [playCallback, hpc, hw]; rfl⟩
  | call i =>
    by_cases hi : i < BUFFER_SIZE
    · exact ⟨_, by simp only [playCallback, hpc, if_pos hi]; rfl⟩
    · cases hc : env.callObject s.played.length s.play.raw_data FRAMES_PER_SAMPLE 2 4 48000 with
      | none => exact ⟨_, by simp only [playCallback, hpc, if_neg hi, hc]; rfl⟩
      | some data => exact ⟨_, by simp only [playCallback, hpc, if_neg hi, hc]; rfl⟩
  | left i =>
    by_cases hi : i < FRAMES_PER_SAMPLE
    · exact ⟨_, by simp only [playCallback, hpc, if_pos hi]; rfl⟩
    · exact ⟨_, by simp only [playCallback, hpc, if_neg hi]; rfl⟩
  | aborted => exact absurd hpc ha
  | _ => exact ⟨_, by simp only [playCallback, hpc]; rfl⟩

/-- Outside the critical section of `recordCallback`, `playCallback` alone gets to
`sem_post(&readDone)` or to the end of a failed call. -/
theorem exists_posted (h : Inv env s) (ht : s.record.pc.tokens = 0) :
    ∃ sched s', Sched.run (step env) sched s = some s' ∧
      (Inv env s' ∧ s'.record = s.record ∧ s'.recorded = s.recorded) ∧
      (0 < s'.readDone ∨ s'.play.pc = .aborted) := by
  refine Sched.exists_run_until (t := .play)
    (P := fun x => Inv env x ∧ x.record = s.record ∧ x.recorded = s.recorded)
    (Q := fun x => 0 < x.readDone ∨ x.play.pc = .aborted) (fun x => x.play.pc.work) ?_ s
    ⟨h, rfl, rfl⟩
  rintro x ⟨hx, hrec, hn⟩ hQ
  obtain ⟨hrd, ha⟩ := not_or.mp hQ
  have hwait : x.play.pc = .wait → x.writeDone ≠ 0 := by
    intro hpc
    have htok := hx.tokens
    simp only [hrec, ht, hpc, PlayPc.holding] at htok
    omega
  obtain ⟨x', hx'⟩ := playCallback_isSome env hwait ha
  obtain ⟨hr, hrd', hcase⟩ := playCallback_work hx hx'
  refine ⟨x', hx', ⟨playCallback_inv hx hx', hr.trans hrec, hrd'.trans hn⟩, ?_⟩
  rcases hcase with hp | hp | hlt
  · exact .inl (.inl hp)
  · exact .inl (.inr hp)
  · exact .inr hlt

/-- Between two rounds: `k` chunks recorded, all of them handed over and taken. -/
structure Between (env : Env) (k : Nat) (s : State) : Prop where
  inv : Inv env s
  record_idle : s.record.pc = .idle
  recorded : s.recorded = k
  ready : s.readDone = 1

theorem Between.taken {k : Nat} (h : Between env k s) :
    s.play.pc.holding.tokens = 0 ∧ s.played.length + s.play.pc.holding.posted = k := by
  have ht := h.inv.tokens
  have hp := h.inv.posts
  simp only [h.record_idle, h.recorded, h.ready, RecordPc.tokens, RecordPc.posted] at ht hp
  omega

/-- After `k + 1` rounds call `k` of `playCallback` has posted, so call `k - 1` has returned. -/
theorem Between.played {k : Nat} (h : Between env (k + 1) s) : k ≤ s.played.length := by
  have hposted : ∀ pc : PlayPc, pc.holding.posted ≤ 1 := by
    intro pc
    cases pc <;> simp
  have := hposted s.play.pc
  have := h.taken.2
  omega

/-- `recordCallback` alone completes the next call. -/
theorem exists_recorded {k : Nat} (h : Between env k s) :
    ∃ sched s', Sched.run (step env) sched s = some s' ∧
      (Inv env s' ∧ s'.play = s.play ∧ s'.played = s.played ∧
        (s'.recorded = k ∨ s'.recorded = k + 1 ∧ s'.record.pc = .idle)) ∧
      s'.recorded = k + 1 := by
  obtain ⟨htok, htaken⟩ := h.taken
  refine Sched.exists_run_until (t := .record)
    (P := fun x => Inv env x ∧ x.play = s.play ∧ x.played = s.played ∧
      (x.recorded = k ∨ x.recorded = k + 1 ∧ x.record.pc = .idle))
    (Q := fun x => x.recorded = k + 1) (fun x => x.record.pc.work) ?_ s
    ⟨h.inv, rfl, rfl, .inl h.recorded⟩
  rintro x ⟨hx, hpl, hpd, hcase⟩ hQ
  have hk : x.recorded = k := by omega
  have hwait : x.record.pc = .wait → x.readDone ≠ 0 := by
    intro hpc
    have ht := hx.tokens
    have hp := hx.posts
    simp only [hpc, hpl, hpd, hk, htok, RecordPc.tokens, RecordPc.posted] at ht hp
    omega
  obtain ⟨x', hx'⟩ := recordCallback_isSome env hwait
  obtain ⟨hpl', hpd', hcase'⟩ := recordCallback_work hx hx'
  have hinv := recordCallback_inv hx hx'
  rcases hcase' with ⟨hr, hlt⟩ | ⟨hr, hidle⟩
  · exact ⟨x', hx', ⟨hinv, hpl'.trans hpl, hpd'.trans hpd, .inl (by omega)⟩, .inr hlt⟩
  · exact ⟨x', hx', ⟨hinv, hpl'.trans hpl, hpd'.trans hpd, .inr ⟨by omega, hidle⟩⟩,
      .inl (by omega)⟩

/-- One more round, unless the call of the Python function in it fails. -/
theorem exists_round {k : Nat} (h : Between env k s) :
    ∃ sched s', Sched.run (step env) sched s = some s' ∧
      (Between env (k + 1) s' ∨ s'.play.pc = .aborted ∧ s'.record.pc = .idle) := by
  obtain ⟨sched, s1, hs1, ⟨hinv1, -, -, hcase1⟩, hk1⟩ := exists_recorded h
  have hidle1 : s1.record.pc = .idle := by
    rcases hcase1 with h0 | h0
    · omega
    · exact h0.2
  obtain ⟨sched', s2, hs2, ⟨hinv2, hrec2, hn2⟩, hcase2⟩ :=
    exists_posted hinv1 (by rw [hidle1]; rfl)
  have hidle2 : s2.record.pc = .idle := by rw [hrec2]; exact hidle1
  refine ⟨sched ++ sched', s2, Sched.run_trans hs1 hs2, ?_⟩
  rcases hcase2 with hrd | ha
  · have ht := hinv2.tokens
    exact .inl ⟨hinv2, hidle2, hn2.trans hk1, by omega⟩
  · exact .inr ⟨ha, hidle2⟩

theorem exists_rounds (env : Env) (k : Nat) :
    ∃ sched s, run env sched = some s ∧
      (Between env k s ∨ s.play.pc = .aborted ∧ s.record.pc = .idle) := by
  induction k with
  | zero => exact ⟨[], init, rfl, .inl ⟨init_inv env, rfl, rfl, rfl⟩⟩
  | succ k ih =>
    obtain ⟨sched, s, hs, hcase⟩ := ih
    rcases hcase with hb | ha
    · obtain ⟨sched', s', hs', hcase'⟩ := exists_round hb
      exact ⟨sched ++ sched', s', Sched.run_trans hs hs', hcase'⟩
    · exact ⟨sched, s, hs, .inr ha⟩

end AudioRecordPython
end SoundScreen
