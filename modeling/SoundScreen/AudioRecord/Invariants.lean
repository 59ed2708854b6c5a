import Mathlib.Tactic.Linarith
import SoundScreen.AudioRecord.Callbacks

/-!
# SoundScreen.AudioRecord.Invariants

What holds in every reachable state of the two callbacks, `2 * framesPerBuffer ≤ BUFFER_SIZE`.

`Control`: the saved indices are the stream positions modulo `BUFFER_SIZE`, the locals of a
running callback follow its loop counter, one token is shared by the two semaphores and the
two critical sections, and it lies on the side that has a chunk to move.
-/

namespace SoundScreen
namespace AudioRecord

/-- 1 between `sem_wait` and `sem_post`. -/
def Pc.tokens : Pc → Nat
  | .left _ | .right _ => 1
  | _ => 0

/-- 1 between `sem_post` and the return. -/
def Pc.posted : Pc → Nat
  | .publish => 1
  | _ => 0

@[simp] theorem tokens_idle : Pc.idle.tokens = 0 := rfl
@[simp] theorem tokens_wait : Pc.wait.tokens = 0 := rfl
@[simp] theorem tokens_left (i : Nat) : (Pc.left i).tokens = 1 := rfl
@[simp] theorem tokens_right (i : Nat) : (Pc.right i).tokens = 1 := rfl
@[simp] theorem tokens_publish : Pc.publish.tokens = 0 := rfl
@[simp] theorem posted_idle : Pc.idle.posted = 0 := rfl
@[simp] theorem posted_wait : Pc.wait.posted = 0 := rfl
@[simp] theorem posted_left (i : Nat) : (Pc.left i).posted = 0 := rfl
@[simp] theorem posted_right (i : Nat) : (Pc.right i).posted = 0 := rfl
@[simp] theorem posted_publish : Pc.publish.posted = 1 := rfl

/-- The cell the `j`-th copy of a callback started at saved index `index` accesses. -/
def cellFrom (index j : Nat) : Nat := index + (index + j) % BUFFER_SIZE

/-- The saved index of the `k`-th call of either callback. -/
def indexOf (N k : Nat) : Nat := 2 * N * k % BUFFER_SIZE

theorem mod_lt (p : Nat) : p % BUFFER_SIZE < BUFFER_SIZE := Nat.mod_lt p (by decide)

theorem indexOf_lt (N k : Nat) : indexOf N k < BUFFER_SIZE := mod_lt _

theorem indexOf_succ (N k : Nat) : (indexOf N k + 2 * N) % BUFFER_SIZE = indexOf N (k + 1) := by
  rw [indexOf, indexOf, Nat.mod_add_mod, Nat.mul_succ]

theorem cellFrom_lt (N k j : Nat) : cellFrom (indexOf N k) j < allocated := by
  have h₁ := indexOf_lt N k
  have h₂ := mod_lt (indexOf N k + j)
  simp only [cellFrom, allocated]
  omega

/-- The copies of one callback go to different cells. -/
theorem cellFrom_inj {index i j : Nat} (hi : i < BUFFER_SIZE) (hj : j < BUFFER_SIZE)
    (h : cellFrom index i = cellFrom index j) : i = j := by
  have hB : BUFFER_SIZE = 4096 := rfl
  simp only [cellFrom, hB] at h hi hj
  omega

/-- The locals of a callback that started at saved index `index`. -/
def Frame.Ok (N index : Nat) (f : Frame) : Prop :=
  match f.pc with
  | .idle => True
  | .wait => f.base = index ∧ f.idx = index + f.ptr ∧ f.ptr = 0
  | .left i => f.base = index ∧ f.idx = index + f.ptr ∧ f.ptr = 2 * i ∧ i ≤ N
  | .right i => f.base = index ∧ f.idx = index + f.ptr ∧ f.ptr = 2 * i + 1 ∧ i < N
  | .publish => f.base = index ∧ f.idx = index + f.ptr ∧ f.ptr = 2 * N

structure Control (N : Nat) (s : State) : Prop where
  recordIndex : s.data.recordIndex = indexOf N s.recorded
  playIndex : s.data.playIndex = indexOf N s.played.length
  record_ok : s.record.Ok N (indexOf N s.recorded)
  play_ok : s.play.Ok N (indexOf N s.played.length)
  tokens : s.readDone + s.writeDone + s.record.pc.tokens + s.play.pc.tokens = 1
  posts : s.recorded + s.record.pc.posted =
    s.played.length + s.play.pc.posted + s.writeDone + s.play.pc.tokens

section Frames

variable {N index : Nat} {f : Frame}

theorem ofIndex_ok : (Frame.ofIndex index).Ok N index := ⟨rfl, rfl, rfl⟩

theorem goto_left_ok (h : f.Ok N index) (hpc : f.pc = .wait) : (f.goto (.left 0)).Ok N index := by
  simp only [Frame.Ok, hpc] at h
  exact ⟨h.1, h.2.1, h.2.2, Nat.zero_le N⟩

theorem goto_publish_ok {i : Nat} (h : f.Ok N index) (hpc : f.pc = .left i) (hi : ¬ i < N) :
    (f.goto .publish).Ok N index := by
  simp only [Frame.Ok, hpc] at h
  obtain ⟨hb, hidx, hp, hle⟩ := h
  exact ⟨hb, hidx, by simp only [Frame.goto]; omega⟩

theorem copied_right_ok {i : Nat} (hN : 2 * N ≤ BUFFER_SIZE) (hx : index < BUFFER_SIZE)
    (h : f.Ok N index) (hpc : f.pc = .left i) (hi : i < N) :
    (f.copied (.right i)).Ok N index := by
  have hB : BUFFER_SIZE = 4096 := rfl
  simp only [Frame.Ok, hpc] at h
  obtain ⟨hb, hidx, hp, hle⟩ := h
  refine ⟨hb, ?_, ?_, hi⟩
  · simp only [Frame.copied]
    rw [u32_of_lt (by omega)]
    omega
  · simp only [Frame.copied, hp]

theorem copied_left_ok {i : Nat} (hN : 2 * N ≤ BUFFER_SIZE) (hx : index < BUFFER_SIZE)
    (h : f.Ok N index) (hpc : f.pc = .right i) :
    (f.copied (.left (u32 (i + 1)))).Ok N index := by
  have hB : BUFFER_SIZE = 4096 := rfl
  simp only [Frame.Ok, hpc] at h
  obtain ⟨hb, hidx, hp, hlt⟩ := h
  rw [u32_of_lt (by omega : i + 1 < 2 ^ 32)]
  refine ⟨hb, ?_, ?_, hlt⟩
  · simp only [Frame.copied]
    rw [u32_of_lt (by omega)]
    omega
  · simp only [Frame.copied, hp]
    omega

/-- An access hits the cell of the sample the callback is at. -/
theorem access_eq {c : Nat} (h : f.Ok N index) (hc : f.access N = some c) :
    c = cellFrom index f.ptr ∧ f.base = index ∧ f.ptr < 2 * N ∧ f.pc.tokens = 1 := by
  cases hpc : f.pc with
  | left i =>
    simp only [Frame.Ok, hpc] at h
    simp only [Frame.access, hpc] at hc
    split at hc
    · rename_i hi
      cases hc
      exact ⟨by simp only [Frame.cell, cellFrom, h.1, h.2.1], h.1, by omega, rfl⟩
    · cases hc
  | right i =>
    simp only [Frame.Ok, hpc] at h
    simp only [Frame.access, hpc] at hc
    cases hc
    exact ⟨by simp only [Frame.cell, cellFrom, h.1, h.2.1], h.1, by omega, rfl⟩
  | _ => simp [Frame.access, hpc] at hc

theorem cell_eq (h : f.Ok N index) (hpc : f.pc.tokens = 1) : f.cell = cellFrom index f.ptr := by
  cases hc : f.pc <;> simp [hc] at hpc
  · simp only [Frame.Ok, hc] at h
    simp only [Frame.cell, cellFrom, h.1, h.2.1]
  · simp only [Frame.Ok, hc] at h
    simp only [Frame.cell, cellFrom, h.1, h.2.1]

end Frames

theorem init_control (N : Nat) : Control N init := by
  constructor <;> simp [init, indexOf, Frame.Ok]

theorem recordCallback_control {N : Nat} {inputBuffer : Nat → Nat → SAMPLE} {s s' : State}
    (hN : 2 * N ≤ BUFFER_SIZE) (h : Control N s)
    (hs : recordCallback N inputBuffer s = some s') : Control N s' := by
  obtain ⟨hri, hpi, hro, hpo, ht, hp⟩ := h
  have hlt := indexOf_lt N s.recorded
  cases hpc : s.record.pc with
  | idle =>
    simp only [recordCallback, hpc] at hs
    cases hs
    exact ⟨hri, hpi, hri ▸ ofIndex_ok, hpo, by simpa [Frame.ofIndex, hpc] using ht,
      by simpa [Frame.ofIndex, hpc] using hp⟩
  | wait =>
    simp only [recordCallback, hpc] at hs
    split at hs
    · cases hs
    · rename_i n hn
      cases hs
      refine ⟨hri, hpi, goto_left_ok hro hpc, hpo, ?_, ?_⟩
      · simp [hpc, Frame.goto] at ht ⊢; omega
      · simpa [hpc, Frame.goto] using hp
  | left i =>
    simp only [recordCallback, hpc] at hs
    split at hs
    · rename_i hi
      cases hs
      exact ⟨hri, hpi, copied_right_ok hN hlt hro hpc hi, hpo,
        by simpa [hpc, Frame.copied] using ht,
        by simpa [hpc, Frame.copied] using hp⟩
    · rename_i hi
      cases hs
      refine ⟨hri, hpi, goto_publish_ok hro hpc hi, hpo, ?_, ?_⟩
      · simp [hpc, Frame.goto] at ht ⊢; omega
      · simp [hpc, Frame.goto] at ht hp ⊢; omega
  | right i =>
    simp only [recordCallback, hpc] at hs
    cases hs
    exact ⟨hri, hpi, copied_left_ok hN hlt hro hpc, hpo,
      by simpa [hpc, Frame.copied] using ht,
      by simpa [hpc, Frame.copied] using hp⟩
  | publish =>
    simp only [recordCallback, hpc] at hs
    cases hs
    simp only [Frame.Ok, hpc] at hro
    refine ⟨?_, hpi, trivial, hpo, by simpa [hpc, Frame.goto] using ht, ?_⟩
    · simp only [hro.2.1, hro.2.2, indexOf_succ]
    · simp [hpc, Frame.goto] at hp ⊢; omega

theorem playCallback_control {N : Nat} {s s' : State} (hN : 2 * N ≤ BUFFER_SIZE)
    (h : Control N s) (hs : playCallback N s = some s') : Control N s' := by
  obtain ⟨hri, hpi, hro, hpo, ht, hp⟩ := h
  have hlt := indexOf_lt N s.played.length
  cases hpc : s.play.pc with
  | idle =>
    simp only [playCallback, hpc] at hs
    cases hs
    exact ⟨hri, hpi, hro, hpi ▸ ofIndex_ok, by simpa [Frame.ofIndex, hpc] using ht,
      by simpa [Frame.ofIndex, hpc] using hp⟩
  | wait =>
    simp only [playCallback, hpc] at hs
    split at hs
    · cases hs
    · rename_i n hn
      cases hs
      refine ⟨hri, hpi, hro, goto_left_ok hpo hpc, ?_, ?_⟩
      · simp [hpc, Frame.goto] at ht ⊢; omega
      · simp [hpc, Frame.goto] at hp ⊢; omega
  | left i =>
    simp only [playCallback, hpc] at hs
    split at hs
    · rename_i hi
      cases hs
      exact ⟨hri, hpi, hro, copied_right_ok hN hlt hpo hpc hi,
        by simpa [hpc, Frame.copied] using ht,
        by simpa [hpc, Frame.copied] using hp⟩
    · rename_i hi
      cases hs
      refine ⟨hri, hpi, hro, goto_publish_ok hpo hpc hi, ?_, ?_⟩
      · simp [hpc, Frame.goto] at ht ⊢; omega
      · simp [hpc, Frame.goto] at hp ⊢; omega
  | right i =>
    simp only [playCallback, hpc] at hs
    cases hs
    exact ⟨hri, hpi, hro, copied_left_ok hN hlt hpo hpc,
      by simpa [hpc, Frame.copied] using ht,
      by simpa [hpc, Frame.copied] using hp⟩
  | publish =>
    simp only [playCallback, hpc] at hs
    cases hs
    simp only [Frame.Ok, hpc] at hpo
    refine ⟨hri, ?_, hro, trivial, by simpa [hpc, Frame.goto] using ht, ?_⟩
    · simp only [hpo.2.1, hpo.2.2, indexOf_succ, List.length_append, List.length_singleton]
    · simp [hpc, Frame.goto] at hp ⊢; omega

theorem step_control {N : Nat} {inputBuffer : Nat → Nat → SAMPLE} (hN : 2 * N ≤ BUFFER_SIZE)
    (t : Thread) (s s' : State) (h : Control N s) (hs : step N inputBuffer t s = some s') :
    Control N s' := by
  cases t with
  | record => exact recordCallback_control hN h hs
  | play => exact playCallback_control hN h hs

end AudioRecord
end SoundScreen
