import SoundScreen.AudioRecord.Handover

/-!
# SoundScreen.AudioRecord.Ring

Which cell of `recordedSamples` a sample of the stream uses. The base pointer of a callback is
taken at the saved index and the running index starts at the saved index too, so sample `s` of
the stream, copied by the `k`-th call, goes to `indexOf N k + s % BUFFER_SIZE`: the ring cell
`s % BUFFER_SIZE` only when the saved index is 0.

* `record_access_ring`, `play_access_ring`: that, access by access.
* `exists_round`: from a quiet state the callbacks can always complete one more call each.
* `ringDiscipline_iff`: over all runs the ring discipline holds for `N = 0` and
  `2 * N = BUFFER_SIZE` and for no other chunk size.
-/

namespace SoundScreen
namespace AudioRecord

variable {N : Nat} {inputBuffer : Nat → Nat → SAMPLE} {s s' : State}

/-- The next access of either callback is to cell `p % BUFFER_SIZE`, `p` the position in the
stream of the sample it copies; so it is below `BUFFER_SIZE`. -/
structure RingDiscipline (N : Nat) (s : State) : Prop where
  stored : ∀ c, s.record.access N = some c →
    c = (2 * N * s.recorded + s.record.ptr) % BUFFER_SIZE ∧ c < BUFFER_SIZE
  loaded : ∀ c, s.play.access N = some c →
    c = (2 * N * s.played.length + s.play.ptr) % BUFFER_SIZE ∧ c < BUFFER_SIZE

/-- The address of sample `j` of call `k` against its ring cell. -/
theorem cellFrom_eq (N k j : Nat) :
    cellFrom (indexOf N k) j = indexOf N k + (2 * N * k + j) % BUFFER_SIZE := by
  rw [cellFrom, indexOf, Nat.mod_add_mod]

theorem cellFrom_ring_iff (N k j : Nat) :
    cellFrom (indexOf N k) j = (2 * N * k + j) % BUFFER_SIZE ↔ BUFFER_SIZE ∣ 2 * N * k := by
  rw [cellFrom_eq, Nat.add_eq_right, indexOf, Nat.dvd_iff_mod_eq_zero]

theorem record_access_ring {c : Nat} (h : Control N s) (hc : s.record.access N = some c) :
    c = (2 * N * s.recorded + s.record.ptr) % BUFFER_SIZE ↔ BUFFER_SIZE ∣ 2 * N * s.recorded := by
  rw [(access_eq h.record_ok hc).1]
  exact cellFrom_ring_iff N s.recorded s.record.ptr

theorem play_access_ring {c : Nat} (h : Control N s) (hc : s.play.access N = some c) :
    c = (2 * N * s.played.length + s.play.ptr) % BUFFER_SIZE ↔
      BUFFER_SIZE ∣ 2 * N * s.played.length := by
  rw [(access_eq h.play_ok hc).1]
  exact cellFrom_ring_iff N s.played.length s.play.ptr

/-! ## Every number of calls is reached -/

/-- Moves left before the running call returns. -/
def Pc.work (N : Nat) : Pc → Nat
  | .idle => 2 * N + 5
  | .wait => 2 * N + 4
  | .left i => 2 * (N - i) + 3
  | .right i => 2 * (N - i) + 2
  | .publish => 1

/-- A move of `recordCallback` is towards its return, or is the return. -/
theorem recordCallback_work (hN : 2 * N ≤ BUFFER_SIZE) (h : Control N s)
    (hs : recordCallback N inputBuffer s = some s') :
    s'.play = s.play ∧ s'.played = s.played ∧
      (s'.recorded = s.recorded ∧ s'.record.pc.work N < s.record.pc.work N ∨
        s'.recorded = s.recorded + 1 ∧ s'.record.pc = .idle) := by
  have hB : BUFFER_SIZE = 4096 := rfl
  have hro := h.record_ok
  cases hpc : s.record.pc with
  | idle =>
    simp only [recordCallback, hpc] at hs
    cases hs
    exact ⟨rfl, rfl, .inl ⟨rfl, by simp [Pc.work, Frame.ofIndex]⟩⟩
  | wait =>
    simp only [recordCallback, hpc] at hs
    split at hs
    · cases hs
    · cases hs
      exact ⟨rfl, rfl, .inl ⟨rfl, by simp [Pc.work, Frame.goto]⟩⟩
  | left i =>
    simp only [recordCallback, hpc] at hs
    split at hs
    · cases hs
      exact ⟨rfl, rfl, .inl ⟨rfl, by simp [Pc.work, Frame.copied]⟩⟩
    · cases hs
      exact ⟨rfl, rfl, .inl ⟨rfl, by simp [Pc.work, Frame.goto]⟩⟩
  | right i =>
    simp only [Frame.Ok, hpc] at hro
    simp only [recordCallback, hpc] at hs
    cases hs
    refine ⟨rfl, rfl, .inl ⟨rfl, ?_⟩⟩
    simp only [Pc.work, Frame.copied, u32_of_lt (by omega : i + 1 < 2 ^ 32)]
    omega
  | publish =>
    simp only [recordCallback, hpc] at hs
    cases hs
    exact ⟨rfl, rfl, .inr ⟨rfl, rfl⟩⟩

theorem playCallback_work (hN : 2 * N ≤ BUFFER_SIZE) (h : Control N s)
    (hs : playCallback N s = some s') :
    s'.record = s.record ∧ s'.recorded = s.recorded ∧
      (s'.played.length = s.played.length ∧ s'.play.pc.work N < s.play.pc.work N ∨
        s'.played.length = s.played.length + 1 ∧ s'.play.pc = .idle) := by
  have hB : BUFFER_SIZE = 4096 := rfl
  have hpo := h.play_ok
  cases hpc : s.play.pc with
  | idle =>
    simp only [playCallback, hpc] at hs
    cases hs
    exact ⟨rfl, rfl, .inl ⟨rfl, by simp [Pc.work, Frame.ofIndex]⟩⟩
  | wait =>
    simp only [playCallback, hpc] at hs
    split at hs
    · cases hs
    · cases hs
      exact ⟨rfl, rfl, .inl ⟨rfl, by simp [Pc.work, Frame.goto]⟩⟩
  | left i =>
    simp only [playCallback, hpc] at hs
    split at hs
    · cases hs
      exact ⟨rfl, rfl, .inl ⟨rfl, by simp [Pc.work, Frame.copied]⟩⟩
    · cases hs
      exact ⟨rfl, rfl, .inl ⟨rfl, by simp [Pc.work, Frame.goto]⟩⟩
  | right i =>
    simp only [Frame.Ok, hpc] at hpo
    simp only [playCallback, hpc] at hs
    cases hs
    refine ⟨rfl, rfl, .inl ⟨rfl, ?_⟩⟩
    simp only [Pc.work, Frame.copied, u32_of_lt (by omega : i + 1 < 2 ^ 32)]
    omega
  | publish =>
    simp only [playCallback, hpc] at hs
    cases hs
    exact ⟨rfl, rfl, .inr ⟨List.length_append, rfl⟩⟩

theorem recordCallback_isSome (N : Nat) (inputBuffer : Nat → Nat → SAMPLE)
    (h : s.record.pc = .wait → s.readDone ≠ 0) :
    ∃ s', recordCallback N inputBuffer s = some s' := by
  cases hs : recordCallback N inputBuffer s with
  | none =>
    obtain ⟨hpc, h0⟩ := recordCallback_none hs
    exact absurd h0 (h hpc)
  | some s' => exact ⟨s', rfl⟩

theorem playCallback_isSome (N : Nat) (h : s.play.pc = .wait → s.writeDone ≠ 0) :
    ∃ s', playCallback N s = some s' := by
  cases hs : playCallback N s with
  | none =>
    obtain ⟨hpc, h0⟩ := playCallback_none hs
    exact absurd h0 (h hpc)
  | some s' => exact ⟨s', rfl⟩

/-- Between two calls, `k` calls of each callback completed. -/
structure Quiet (N k : Nat) (s : State) : Prop where
  control : Control N s
  record_idle : s.record.pc = .idle
  play_idle : s.play.pc = .idle
  recorded : s.recorded = k
  played : s.played.length = k

theorem init_quiet : Quiet N 0 init := ⟨init_control N, rfl, rfl, rfl, rfl⟩

section Rounds

variable (inputBuffer)

theorem exists_recorded {k : Nat} (hN : 2 * N ≤ BUFFER_SIZE) (h : Quiet N k s) :
    ∃ sched s', Sched.run (step N inputBuffer) sched s = some s' ∧
      (Control N s' ∧ s'.play.pc = .idle ∧ s'.played.length = k ∧
        (s'.recorded = k ∨ s'.recorded = k + 1 ∧ s'.record.pc = .idle)) ∧
      s'.recorded = k + 1 := by
  refine Sched.exists_run_until (t := .record)
    (P := fun s => Control N s ∧ s.play.pc = .idle ∧ s.played.length = k ∧
      (s.recorded = k ∨ s.recorded = k + 1 ∧ s.record.pc = .idle))
    (Q := fun s => s.recorded = k + 1) (fun s => s.record.pc.work N) ?_ s
    ⟨h.control, h.play_idle, h.played, .inl h.recorded⟩
  rintro s ⟨hc, hpi, hpl, hrec⟩ hQ
  have hk : s.recorded = k := by omega
  have hready : s.record.pc = .wait → s.readDone ≠ 0 := by
    intro hw
    have ht := hc.tokens
    have hp := hc.posts
    simp only [hw, hpi, tokens_wait, tokens_idle, posted_wait, posted_idle] at ht hp
    omega
  obtain ⟨s', hs⟩ := recordCallback_isSome N inputBuffer hready
  obtain ⟨hplay, hplayed, hcase⟩ := recordCallback_work hN hc hs
  have hc' := recordCallback_control hN hc hs
  rcases hcase with ⟨hr, hlt⟩ | ⟨hr, hidle⟩
  · exact ⟨s', hs, ⟨hc', hplay ▸ hpi, hplayed ▸ hpl, .inl (by omega)⟩, .inr hlt⟩
  · exact ⟨s', hs, ⟨hc', hplay ▸ hpi, hplayed ▸ hpl, .inr ⟨by omega, hidle⟩⟩, .inl (by omega)⟩

theorem exists_played {k : Nat} (hN : 2 * N ≤ BUFFER_SIZE) (hc : Control N s)
    (hri : s.record.pc = .idle) (hrec : s.recorded = k + 1) (hpl : s.played.length = k) :
    ∃ sched s', Sched.run (step N inputBuffer) sched s = some s' ∧
      (Control N s' ∧ s'.record.pc = .idle ∧ s'.recorded = k + 1 ∧
        (s'.played.length = k ∨ s'.played.length = k + 1 ∧ s'.play.pc = .idle)) ∧
      s'.played.length = k + 1 := by
  refine Sched.exists_run_until (t := .play)
    (P := fun s => Control N s ∧ s.record.pc = .idle ∧ s.recorded = k + 1 ∧
      (s.played.length = k ∨ s.played.length = k + 1 ∧ s.play.pc = .idle))
    (Q := fun s => s.played.length = k + 1) (fun s => s.play.pc.work N) ?_ s
    ⟨hc, hri, hrec, .inl hpl⟩
  rintro s ⟨hc, hri, hrec, hpl⟩ hQ
  have hk : s.played.length = k := by omega
  have hready : s.play.pc = .wait → s.writeDone ≠ 0 := by
    intro hw
    have hp := hc.posts
    simp only [hw, hri, tokens_wait, posted_wait, posted_idle] at hp
    omega
  obtain ⟨s', hs⟩ := playCallback_isSome N hready
  obtain ⟨hr, hrd, hcase⟩ := playCallback_work hN hc hs
  have hc' := playCallback_control hN hc hs
  rcases hcase with ⟨hp, hlt⟩ | ⟨hp, hidle⟩
  · exact ⟨s', hs, ⟨hc', hr ▸ hri, hrd ▸ hrec, .inl (by omega)⟩, .inr hlt⟩
  · exact ⟨s', hs, ⟨hc', hr ▸ hri, hrd ▸ hrec, .inr ⟨by omega, hidle⟩⟩, .inl (by omega)⟩

/-- From a quiet state the callbacks can complete one more call each. -/
theorem exists_round {k : Nat} (hN : 2 * N ≤ BUFFER_SIZE) (h : Quiet N k s) :
    ∃ sched s', Sched.run (step N inputBuffer) sched s = some s' ∧ Quiet N (k + 1) s' := by
  obtain ⟨sched, s1, hs1, ⟨hc1, -, hpl1, hcase1⟩, hk1⟩ := exists_recorded inputBuffer hN h
  have hri1 : s1.record.pc = .idle := by
    rcases hcase1 with h0 | h0
    · omega
    · exact h0.2
  obtain ⟨sched', s2, hs2, ⟨hc2, hri2, hk2, hcase2⟩, hdone⟩ :=
    exists_played inputBuffer hN hc1 hri1 hk1 hpl1
  have hpi2 : s2.play.pc = .idle := by
    rcases hcase2 with h0 | h0
    · omega
    · exact h0.2
  exact ⟨sched ++ sched', s2, Sched.run_trans hs1 hs2, hc2, hri2, hpi2, hk2, hdone⟩

theorem exists_quiet (hN : 2 * N ≤ BUFFER_SIZE) (k : Nat) :
    ∃ sched s, run N inputBuffer sched = some s ∧ Quiet N k s := by
  induction k with
  | zero => exact ⟨[], init, rfl, init_quiet⟩
  | succ k ih =>
    obtain ⟨sched, s, hs, hq⟩ := ih
    obtain ⟨sched', s', hs', hq'⟩ := exists_round inputBuffer hN hq
    exact ⟨sched ++ sched', s', Sched.run_trans hs hs', hq'⟩

/-- A run in which the `k`-th `recordCallback` is about to store its first sample. -/
theorem exists_first_store (hN : 2 * N ≤ BUFFER_SIZE) (h0 : 0 < N) (k : Nat) :
    ∃ sched s, run N inputBuffer sched = some s ∧
      s.record.access N = some (cellFrom (indexOf N k) 0) ∧ s.recorded = k ∧ s.record.ptr = 0 := by
  obtain ⟨sched, s, hs, hq⟩ := exists_quiet inputBuffer hN k
  obtain ⟨hc, hri, hpi, hrec, hpl⟩ := hq
  have ht := hc.tokens
  have hp := hc.posts
  simp only [hri, hpi, tokens_idle, posted_idle] at ht hp
  let s1 : State := { s with record := Frame.ofIndex s.data.recordIndex }
  let s2 : State := { s1 with readDone := 0, record := s1.record.goto (.left 0) }
  have h1 : step N inputBuffer .record s = some s1 := by simp only [step, recordCallback, hri, s1]
  have h2 : step N inputBuffer .record s1 = some s2 := by
    have hrd : s.readDone = 1 := by omega
    simp only [step, recordCallback, s1, s2, Frame.ofIndex, hrd]
  refine ⟨sched ++ [.record, .record], s2, Sched.run_trans hs ?_, ?_, hrec, rfl⟩
  · rw [Sched.run_cons h1, Sched.run_cons h2, Sched.run_nil]
  · have hidx := hc.recordIndex
    simp only [hrec] at hidx
    simp only [Frame.access, s2, s1, Frame.goto, Frame.ofIndex, if_pos h0, Frame.cell, hidx,
      cellFrom, Nat.add_zero]

end Rounds

/-! ## The ring discipline -/

/-- **Ring discipline of `audio_record.c`.** In every run an access is to the ring cell of its
sample exactly when the saved index of the callback is 0. Over all runs that is so for
`N = 0` and `2 * N = BUFFER_SIZE` and for no other chunk size. -/
theorem ringDiscipline_iff (N : Nat) (hN : 2 * N ≤ BUFFER_SIZE) (inputBuffer : Nat → Nat → SAMPLE) :
    (∀ sched s, run N inputBuffer sched = some s →
      (∀ c, s.record.access N = some c →
        (c = (2 * N * s.recorded + s.record.ptr) % BUFFER_SIZE ↔
          BUFFER_SIZE ∣ 2 * N * s.recorded)) ∧
      (∀ c, s.play.access N = some c →
        (c = (2 * N * s.played.length + s.play.ptr) % BUFFER_SIZE ↔
          BUFFER_SIZE ∣ 2 * N * s.played.length))) ∧
    ((∀ sched s, run N inputBuffer sched = some s → RingDiscipline N s) ↔
      N = 0 ∨ 2 * N = BUFFER_SIZE) := by
  refine ⟨?_, ?_, ?_⟩
  · intro sched s h
    have hc := run_control hN h
    exact ⟨fun c hacc => record_access_ring hc hacc, fun c hacc => play_access_ring hc hacc⟩
  · intro h
    -- the second call stores its first sample in cell `2 * N + 2 * N % BUFFER_SIZE`
    by_contra hne
    obtain ⟨hz, hfull⟩ := not_or.mp hne
    obtain ⟨sched, s, hs, hacc, hrec, hptr⟩ :=
      exists_first_store inputBuffer hN (by omega) 1
    have hring := ((h sched s hs).stored _ hacc).1
    rw [hrec, hptr, cellFrom_ring_iff N 1 0, Nat.mul_one] at hring
    have := Nat.le_of_dvd (by omega) hring
    omega
  · intro hcase sched s h
    have hdvd : ∀ k, BUFFER_SIZE ∣ 2 * N * k := by
      intro k
      rcases hcase with rfl | hB
      · simp
      · rw [hB]; exact Dvd.intro k rfl
    have hc := run_control hN h
    constructor
    · intro c hacc
      have heq := (record_access_ring hc hacc).mpr (hdvd _)
      exact ⟨heq, heq ▸ mod_lt _⟩
    · intro c hacc
      have heq := (play_access_ring hc hacc).mpr (hdvd _)
      exact ⟨heq, heq ▸ mod_lt _⟩

theorem ringDiscipline_full_ring :
    (∀ sched s, run 2048 (fun _ _ => 0) sched = some s → RingDiscipline 2048 s) ↔
      2048 = 0 ∨ 2 * 2048 = BUFFER_SIZE :=
  (ringDiscipline_iff 2048 (by decide) fun _ _ => 0).2

/-- With the chunk size `main` asks PortAudio for, the second `recordCallback` stores sample
2048 of the stream in cell 4096, the first cell of the second half of the allocation. -/
theorem second_call_leaves_ring :
    (∃ sched s, run FRAMES_PER_SAMPLE (fun _ _ => 0) sched = some s ∧
      s.record.access FRAMES_PER_SAMPLE = some 4096 ∧
      (2 * FRAMES_PER_SAMPLE * s.recorded + s.record.ptr) % BUFFER_SIZE = 2048) ∧
    ¬ (∀ N, 2 * N ≤ BUFFER_SIZE → ∀ inputBuffer sched s, run N inputBuffer sched = some s →
      RingDiscipline N s) := by
  obtain ⟨sched, s, hs, hacc, hrec, hptr⟩ := exists_first_store (N := FRAMES_PER_SAMPLE)
    (fun _ _ => 0) (by decide) (by decide) 1
  have hcell : cellFrom (indexOf FRAMES_PER_SAMPLE 1) 0 = 4096 := by decide
  rw [hcell] at hacc
  refine ⟨⟨sched, s, hs, hacc, by rw [hrec, hptr]; rfl⟩, ?_⟩
  intro h
  have hleaves := ((h FRAMES_PER_SAMPLE (by decide) _ sched s hs).stored _ hacc).2
  exact absurd hleaves (by decide)

end AudioRecord
end SoundScreen
