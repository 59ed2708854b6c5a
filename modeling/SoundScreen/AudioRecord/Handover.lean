import SoundScreen.Lib.Channel
import SoundScreen.AudioRecord.Invariants

/-!
# SoundScreen.AudioRecord.Handover

The two callbacks of `audio_record.c` refine a one-place channel of chunks: `sem_post(&writeDone)`
is the put and `sem_post(&readDone)` the take, every other step is silent (`step_refines`,
`run_refines`). The channel's theorems then give the order and the number of the chunks.

`handover` is the whole contract: the chunks played are the chunks recorded, in order, the
critical sections exclude each other, every access is inside the allocation and the two
callbacks never block each other.
-/

namespace SoundScreen
namespace AudioRecord

open Channel

variable {N : Nat} {inputBuffer : Nat → Nat → SAMPLE} {s s' : State}

/-- Chunks handed over so far: the calls of `recordCallback` past their `sem_post`. -/
def State.given (s : State) : Nat := s.recorded + s.record.pc.posted

/-- Chunks taken so far: the calls of `playCallback` past their `sem_post`. -/
def State.taken (s : State) : Nat := s.played.length + s.play.pc.posted

/-- The outputs of the calls of `playCallback` past their `sem_post`. -/
def State.outputs (s : State) : List (List SAMPLE) :=
  match s.play.pc with
  | .publish => s.played ++ [s.outputBuffer]
  | _ => s.played

/-- `recordedSamples` holds the first `n` samples of chunk `k`, where call `k` puts them. -/
def Holds (N : Nat) (inputBuffer : Nat → Nat → SAMPLE) (mem : Nat → SAMPLE) (k n : Nat) : Prop :=
  ∀ j < n, mem (cellFrom (indexOf N k) j) = inputBuffer k j

structure Content (N : Nat) (inputBuffer : Nat → Nat → SAMPLE) (s : State) : Prop where
  stored : s.record.pc.tokens = 1 →
    Holds N inputBuffer s.data.recordedSamples s.recorded s.record.ptr
  waiting : s.writeDone + s.play.pc.tokens = 1 →
    Holds N inputBuffer s.data.recordedSamples s.taken (2 * N)
  copied : s.play.pc ≠ .idle →
    s.outputBuffer = (List.range s.play.ptr).map (inputBuffer s.played.length)

structure Refines (N : Nat) (inputBuffer : Nat → Nat → SAMPLE) (s : State)
    (c : Channel (List SAMPLE)) : Prop where
  control : Control N s
  content : Content N inputBuffer s
  sent : c.sent = (List.range s.given).map (chunk N inputBuffer)
  received : c.received = s.outputs
  full : s.writeDone + s.play.pc.tokens = 1 → c.place = some (chunk N inputBuffer s.taken)
  vacant : s.writeDone + s.play.pc.tokens = 0 → c.place = none

theorem holds_store {mem : Nat → SAMPLE} {k n : Nat} (hn : n < BUFFER_SIZE)
    (h : Holds N inputBuffer mem k n) :
    Holds N inputBuffer (Function.update mem (cellFrom (indexOf N k) n) (inputBuffer k n)) k
      (n + 1) := by
  intro j hj
  by_cases he : j = n
  · subst he
    rw [Function.update_self]
  · have hne : cellFrom (indexOf N k) j ≠ cellFrom (indexOf N k) n :=
      fun hc => he (cellFrom_inj (by omega) hn hc)
    rw [Function.update_of_ne hne]
    exact h j (by omega)

/-- One copy of `recordCallback`, from either half of the loop body. -/
theorem store_content (hN : 2 * N ≤ BUFFER_SIZE) (hc : Control N s)
    (h : Content N inputBuffer s) (hcs : s.record.pc.tokens = 1) (hp : s.record.ptr < 2 * N)
    (pc : Pc) :
    Content N inputBuffer { s with
      data := s.data.store s.record.cell (inputBuffer s.recorded s.record.ptr)
      record := s.record.copied pc } := by
  refine ⟨?_, ?_, h.copied⟩
  · intro _
    have hcell := cell_eq hc.record_ok hcs
    simp only [paData.store, Frame.copied, hcell]
    exact holds_store (by omega) (h.stored hcs)
  · intro hw
    have ht := hc.tokens
    simp only at hw
    omega

/-- One copy of `playCallback`, from either half of the loop body. -/
theorem load_content (hc : Control N s) (h : Content N inputBuffer s)
    (hcs : s.play.pc.tokens = 1) (hp : s.play.ptr < 2 * N) (pc : Pc)
    (hpo : pc.posted = 0) (hso : s.play.pc.posted = 0) :
    Content N inputBuffer { s with
      outputBuffer := s.outputBuffer ++ [s.data.recordedSamples s.play.cell]
      play := s.play.copied pc } := by
  have ht := hc.tokens
  have hw : s.writeDone + s.play.pc.tokens = 1 := by omega
  have hfull := h.waiting hw
  refine ⟨h.stored, ?_, ?_⟩
  · intro _
    simpa only [State.taken, Frame.copied, hpo, hso] using hfull
  · intro _
    have hcell : s.data.recordedSamples s.play.cell = inputBuffer s.played.length s.play.ptr := by
      rw [cell_eq hc.play_ok hcs]
      simpa only [State.taken, hso, Nat.add_zero] using hfull s.play.ptr hp
    have hne : s.play.pc ≠ .idle := by
      intro h0
      rw [h0] at hcs
      cases hcs
    simp only [Frame.copied, hcell, h.copied hne, List.range_succ, List.map_append, List.map_cons,
      List.map_nil]

theorem init_refines : Refines N inputBuffer init (Channel.empty : Channel (List SAMPLE)) := by
  refine ⟨init_control N, ⟨?_, ?_, ?_⟩, rfl, rfl, ?_, fun _ => rfl⟩ <;> simp [init]

theorem recordCallback_refines {c : Channel (List SAMPLE)} (hN : 2 * N ≤ BUFFER_SIZE)
    (h : Refines N inputBuffer s c) (hs : recordCallback N inputBuffer s = some s') :
    ∃ c', Relation.ReflTransGen Step c c' ∧ Refines N inputBuffer s' c' := by
  obtain ⟨hc, hd, hsent, hrecv, hfull, hvacant⟩ := h
  have hc' := recordCallback_control hN hc hs
  have hro := hc.record_ok
  have ht := hc.tokens
  have hposts := hc.posts
  cases hpc : s.record.pc with
  | idle =>
    simp only [recordCallback, hpc] at hs
    cases hs
    refine ⟨c, .refl, hc', ⟨?_, hd.waiting, hd.copied⟩, ?_, hrecv, hfull, hvacant⟩
    · intro h0
      cases h0
    · simpa [State.given, Frame.ofIndex, hpc] using hsent
  | wait =>
    simp only [recordCallback, hpc] at hs
    split at hs
    · cases hs
    · cases hs
      simp only [Frame.Ok, hpc] at hro
      refine ⟨c, .refl, hc', ⟨?_, hd.waiting, hd.copied⟩, ?_, hrecv, hfull, hvacant⟩
      · intro _ j hj
        simp only [Frame.goto, hro.2.2] at hj
        omega
      · simpa [State.given, Frame.goto, hpc] using hsent
  | left i =>
    simp only [recordCallback, hpc] at hs
    simp only [Frame.Ok, hpc] at hro
    split at hs
    · cases hs
      refine ⟨c, .refl, hc', store_content hN hc hd (by simp [hpc]) (by omega) _, ?_, hrecv,
        hfull, hvacant⟩
      simpa [State.given, Frame.copied, hpc] using hsent
    · cases hs
      -- the put: the chunk just stored is now the one waiting
      simp only [hpc, tokens_left, posted_left] at ht hposts
      have hptr : s.record.ptr = 2 * N := by omega
      have htaken : s.taken = s.recorded := by simp only [State.taken]; omega
      have hstored := hd.stored (by simp [hpc])
      rw [hptr, ← htaken] at hstored
      refine ⟨_, .single (.put (chunk N inputBuffer s.taken) (hvacant (by omega))), hc',
        ⟨?_, fun _ => hstored, hd.copied⟩, ?_, hrecv, fun _ => rfl, ?_⟩
      · intro h0
        cases h0
      · simp only [State.given, hpc, posted_left, Nat.add_zero] at hsent
        simp only [State.given, Frame.goto, posted_publish, hsent, htaken, List.range_succ,
          List.map_append, List.map_singleton]
      · intro h0
        simp only at h0
        omega
  | right i =>
    simp only [recordCallback, hpc] at hs
    simp only [Frame.Ok, hpc] at hro
    cases hs
    refine ⟨c, .refl, hc', store_content hN hc hd (by simp [hpc]) (by omega) _, ?_, hrecv,
      hfull, hvacant⟩
    simpa [State.given, Frame.copied, hpc] using hsent
  | publish =>
    simp only [recordCallback, hpc] at hs
    cases hs
    refine ⟨c, .refl, hc', ⟨?_, hd.waiting, hd.copied⟩, ?_, hrecv, hfull, hvacant⟩
    · intro h0
      cases h0
    · simpa [State.given, Frame.goto, hpc] using hsent

theorem playCallback_refines {c : Channel (List SAMPLE)} (hN : 2 * N ≤ BUFFER_SIZE)
    (h : Refines N inputBuffer s c) (hs : playCallback N s = some s') :
    ∃ c', Relation.ReflTransGen Step c c' ∧ Refines N inputBuffer s' c' := by
  obtain ⟨hc, hd, hsent, hrecv, hfull, hvacant⟩ := h
  have hc' := playCallback_control hN hc hs
  have hpo := hc.play_ok
  have ht := hc.tokens
  have hwait := hd.waiting
  cases hpc : s.play.pc with
  | idle =>
    simp only [playCallback, hpc] at hs
    cases hs
    simp only [State.taken, hpc, tokens_idle, posted_idle] at hwait hfull hvacant
    refine ⟨c, .refl, hc', ⟨hd.stored, hwait, fun _ => rfl⟩, hsent, ?_, hfull, hvacant⟩
    simpa only [State.outputs, Frame.ofIndex, hpc] using hrecv
  | wait =>
    simp only [playCallback, hpc] at hs
    split at hs
    · cases hs
    · rename_i n hn
      cases hs
      simp only [hpc, tokens_wait, hn] at ht
      simp only [State.taken, hpc, tokens_wait, posted_wait, hn] at hwait hfull
      have hout := hd.copied (by simp [hpc])
      refine ⟨c, .refl, hc', ⟨hd.stored, fun _ => hwait (by omega), fun _ => hout⟩, hsent, ?_,
        fun _ => hfull (by omega), ?_⟩
      · simpa only [State.outputs, Frame.goto, hpc] using hrecv
      · intro h0
        simp only [Frame.goto, tokens_left] at h0
        omega
  | left i =>
    simp only [playCallback, hpc] at hs
    simp only [Frame.Ok, hpc] at hpo
    split at hs
    · cases hs
      simp only [State.taken, hpc, tokens_left, posted_left] at hfull hvacant
      refine ⟨c, .refl, hc', load_content hc hd (by simp [hpc]) (by omega) _ rfl
        (by simp [hpc]), hsent, ?_, hfull, hvacant⟩
      simpa only [State.outputs, Frame.copied, hpc] using hrecv
    · cases hs
      -- the take: the chunk copied out is the one that was waiting
      simp only [hpc, tokens_left] at ht
      have hptr : s.play.ptr = 2 * N := by omega
      have hout := hd.copied (by simp [hpc])
      have hplace : c.place = some s.outputBuffer := by
        rw [hfull (by simp only [hpc, tokens_left]; omega), hout, hptr]
        simp only [State.taken, hpc, posted_left, Nat.add_zero, chunk]
      refine ⟨_, .single (.take hplace), hc', ⟨hd.stored, ?_, fun _ => hout⟩, hsent, ?_, ?_,
        fun _ => rfl⟩
      · intro h0
        simp only [Frame.goto, tokens_publish] at h0
        omega
      · simp only [State.outputs, Frame.goto, hpc] at hrecv ⊢
        rw [hrecv]
      · intro h0
        simp only [Frame.goto, tokens_publish] at h0
        omega
  | right i =>
    simp only [playCallback, hpc] at hs
    simp only [Frame.Ok, hpc] at hpo
    cases hs
    simp only [State.taken, hpc, tokens_right, posted_right] at hfull hvacant
    refine ⟨c, .refl, hc', load_content hc hd (by simp [hpc]) (by omega) _ rfl
      (by simp [hpc]), hsent, ?_, hfull, hvacant⟩
    simpa only [State.outputs, Frame.copied, hpc] using hrecv
  | publish =>
    simp only [playCallback, hpc] at hs
    cases hs
    have htaken : (s.played ++ [s.outputBuffer]).length + Pc.idle.posted = s.taken := by
      simp [State.taken, hpc]
    simp only [hpc, tokens_publish, ← htaken] at hwait hfull hvacant
    refine ⟨c, .refl, hc', ⟨hd.stored, hwait, ?_⟩, hsent, ?_, hfull, hvacant⟩
    · intro h0
      exact absurd rfl h0
    · simpa only [State.outputs, Frame.goto, hpc] using hrecv

/-- One step of either callback is silent, or one put, or one take. -/
theorem step_refines (hN : 2 * N ≤ BUFFER_SIZE) (t : Thread) (s s' : State)
    (c : Channel (List SAMPLE)) (h : Refines N inputBuffer s c)
    (hs : step N inputBuffer t s = some s') :
    ∃ c', Relation.ReflTransGen Step c c' ∧ Refines N inputBuffer s' c' := by
  cases t with
  | record => exact recordCallback_refines hN h hs
  | play => exact playCallback_refines hN h hs

/-- Every interleaving of the callbacks is a run of the one-place channel. -/
theorem run_refines (hN : 2 * N ≤ BUFFER_SIZE) {sched : List Thread}
    (h : run N inputBuffer sched = some s) :
    ∃ c : Channel (List SAMPLE), c.Reachable ∧ Refines N inputBuffer s c :=
  Sched.run_simulates (step_refines hN) init_refines h

theorem run_control (hN : 2 * N ≤ BUFFER_SIZE) {sched : List Thread}
    (h : run N inputBuffer sched = some s) : Control N s :=
  Sched.run_invariant (step_control hN) (init_control N) h

theorem recordCallback_none (h : recordCallback N inputBuffer s = none) :
    s.record.pc = .wait ∧ s.readDone = 0 := by
  cases hpc : s.record.pc <;> simp only [recordCallback, hpc] at h
  · cases h
  · split at h
    · exact ⟨rfl, by assumption⟩
    · cases h
  · split at h <;> cases h
  · cases h
  · cases h

theorem playCallback_none (h : playCallback N s = none) :
    s.play.pc = .wait ∧ s.writeDone = 0 := by
  cases hpc : s.play.pc <;> simp only [playCallback, hpc] at h
  · cases h
  · split at h
    · exact ⟨rfl, by assumption⟩
    · cases h
  · split at h <;> cases h
  · cases h
  · cases h

/-- The token is on one side only, so the callbacks are never both blocked. -/
theorem not_both_blocked (h : Control N s) :
    ¬ (recordCallback N inputBuffer s = none ∧ playCallback N s = none) := by
  rintro ⟨hr, hp⟩
  obtain ⟨hrpc, hrd⟩ := recordCallback_none hr
  obtain ⟨hppc, hwd⟩ := playCallback_none hp
  have ht := h.tokens
  simp only [hrpc, hppc, hrd, hwd, tokens_wait] at ht
  omega

theorem played_prefix_outputs (s : State) : s.played <+: s.outputs := by
  cases hpc : s.play.pc <;> simp [State.outputs, hpc]

theorem outputs_length (s : State) : s.outputs.length = s.taken := by
  cases hpc : s.play.pc <;> simp [State.outputs, State.taken, hpc]

theorem played_prefix (hN : 2 * N ≤ BUFFER_SIZE) {sched : List Thread}
    (h : run N inputBuffer sched = some s) :
    s.played <+: (List.range s.given).map (chunk N inputBuffer) := by
  obtain ⟨c, hc, hr⟩ := run_refines hN h
  have hp := received_prefix_sent hc
  rw [hr.received, hr.sent] at hp
  exact (played_prefix_outputs s).trans hp

theorem in_flight (hN : 2 * N ≤ BUFFER_SIZE) {sched : List Thread}
    (h : run N inputBuffer sched = some s) : s.taken ≤ s.given ∧ s.given ≤ s.taken + 1 := by
  obtain ⟨c, hc, hr⟩ := run_refines hN h
  have hle := (received_prefix_sent hc).length_le
  have hge := sent_length_le hc
  simp only [hr.sent, hr.received, List.length_map, List.length_range, outputs_length] at hle hge
  exact ⟨hle, hge⟩

/-- **The hand-over of `audio_record.c`.** After every interleaving of the two callbacks:
every completed `playCallback` has output the chunk given to the `recordCallback` of the same
number, the played stream is a prefix of the recorded one, at most one chunk is in flight, no
copy of one callback is made while the other is between `sem_wait` and `sem_post`, every
access is inside the allocation, and one of the callbacks can move. -/
theorem handover (N : Nat) (hN : 2 * N ≤ BUFFER_SIZE) (inputBuffer : Nat → Nat → SAMPLE)
    (sched : List Thread) (s : State) (h : run N inputBuffer sched = some s) :
    (∀ k (hk : k < s.played.length), s.played[k] = chunk N inputBuffer k) ∧
    s.played.flatten <+: ((List.range s.given).map (chunk N inputBuffer)).flatten ∧
    (s.taken ≤ s.given ∧ s.given ≤ s.taken + 1) ∧
    (∀ c, s.record.access N = some c → s.play.pc.tokens = 0) ∧
    (∀ c, s.play.access N = some c → s.record.pc.tokens = 0) ∧
    (∀ c, s.record.access N = some c ∨ s.play.access N = some c → c < allocated) ∧
    ¬ (step N inputBuffer .record s = none ∧ step N inputBuffer .play s = none) := by
  have hc := run_control hN h
  have ht := hc.tokens
  have hp := played_prefix hN h
  refine ⟨?_, ?_, in_flight hN h, ?_, ?_, ?_, not_both_blocked hc⟩
  · intro k hk
    have hk' := hp.getElem hk
    rw [hk', List.getElem_map, List.getElem_range]
  · obtain ⟨rest, hrest⟩ := hp
    rw [← hrest, List.flatten_append]
    exact List.prefix_append _ _
  · intro c hacc
    have hin := (access_eq hc.record_ok hacc).2.2.2
    omega
  · intro c hacc
    have hin := (access_eq hc.play_ok hacc).2.2.2
    omega
  · rintro c (hacc | hacc)
    · rw [(access_eq hc.record_ok hacc).1]
      exact cellFrom_lt N s.recorded _
    · rw [(access_eq hc.play_ok hacc).1]
      exact cellFrom_lt N s.played.length _

/-- Two frames for each of the chunks 7, 8 and 9, 10. -/
def twoChunks : Nat → Nat → SAMPLE := fun k j => Int32.ofNat (2 * k + j + 7)

/-- Two calls of each callback with `framesPerBuffer = 1`; the second `recordCallback` begins before
the first `playCallback` has ended. -/
def twoCalls : List Thread :=
  List.replicate 6 .record ++ List.replicate 5 .play ++ [.record, .play] ++
    List.replicate 5 .record ++ List.replicate 6 .play

theorem handover_two_calls :
    ∃ s, run 1 twoChunks twoCalls = some s ∧
      s.played = [[7, 8], [9, 10]] ∧ s.given = 2 ∧ s.taken = 2 ∧
      s.played.flatten <+: ((List.range s.given).map (chunk 1 twoChunks)).flatten := by
  obtain ⟨s, hs⟩ := Option.isSome_iff_exists.mp (show (run 1 twoChunks twoCalls).isSome by decide)
  have hval : (run 1 twoChunks twoCalls).map (fun s => (s.played, s.given, s.taken)) =
      some ([[7, 8], [9, 10]], 2, 2) := by decide
  rw [hs] at hval
  simp only [Option.map_some, Option.some.injEq, Prod.mk.injEq] at hval
  exact ⟨s, hs, hval.1, hval.2.1, hval.2.2, (handover 1 (by decide) _ _ s hs).2.1⟩

end AudioRecord
end SoundScreen
