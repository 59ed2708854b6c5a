import Mathlib.Data.List.Forall2
import SoundScreen.Lib.Sched

/-!
# SoundScreen.Lib.Pipeline

A source, a worker and a sink with an unbounded queue between each two. The worker applies `f` to
the items in order and ends at the first one `f` fails on; the others notice nothing.

* `run_flow`: in every interleaving, what went in is what has been worked off, the item the worker
  holds and the first queue, in order; what has been worked off is what has come out, the item the
  sink holds and the second queue.
* `Flow.received_first`: what has come out are the results of the first items.
* `Flow.quiet`: when nothing is left inside, the sink has had the results of all items.
* `Flow.failed`: a worker that ended holds an item `f` fails on.
-/

namespace SoundScreen

structure Pipe (α β ε : Type*) where
  sent : List α := []
  input : List α := []
  held : Option α := none
  failed : Option ε := none
  output : List β := []
  got : Option β := none
  received : List β := []

namespace Pipe

variable {α β ε : Type*} {f : α → Except ε β}

inductive Act (α : Type*) where
  | source (x : α)
  | worker
  | sink

def source (x : α) (s : Pipe α β ε) : Option (Pipe α β ε) :=
  some { s with sent := s.sent ++ [x], input := s.input ++ [x] }

/-- `get` from the first queue, or `f` on the item and `put` into the second. -/
def worker (f : α → Except ε β) (s : Pipe α β ε) : Option (Pipe α β ε) :=
  match s.failed, s.held with
  | some _, _ => none
  | none, some x =>
    match f x with
    | .ok y => some { s with held := none, output := s.output ++ [y] }
    | .error e => some { s with failed := some e }
  | none, none =>
    match s.input with
    | [] => none
    | x :: input => some { s with held := some x, input := input }

/-- `get` from the second queue, or the use of the item. -/
def sink (s : Pipe α β ε) : Option (Pipe α β ε) :=
  match s.got with
  | some y => some { s with got := none, received := s.received ++ [y] }
  | none =>
    match s.output with
    | [] => none
    | y :: output => some { s with got := some y, output := output }

def step (f : α → Except ε β) : Act α → Pipe α β ε → Option (Pipe α β ε)
  | .source x => source x
  | .worker => worker f
  | .sink => sink

/-- Nothing is inside. -/
def Quiet (s : Pipe α β ε) : Prop :=
  s.input = [] ∧ s.held = none ∧ s.output = [] ∧ s.got = none

/-- `done` are the items worked off. -/
structure FlowOf (f : α → Except ε β) (s : Pipe α β ε) (done : List α) : Prop where
  sent_eq : s.sent = done ++ s.held.toList ++ s.input
  results : List.Forall₂ (fun x y => f x = .ok y) done (s.received ++ s.got.toList ++ s.output)
  failure : ∀ e, s.failed = some e → ∃ x, s.held = some x ∧ f x = .error e

def Flow (f : α → Except ε β) (s : Pipe α β ε) : Prop := ∃ done, FlowOf f s done

theorem source_flow {x : α} {s s' : Pipe α β ε} (hs : Flow f s) (h : source x s = some s') :
    Flow f s' := by
  obtain ⟨done, hsent, hres, hfail⟩ := hs
  cases h
  refine ⟨done, ?_, hres, hfail⟩
  simp only [hsent, List.append_assoc]

theorem worker_flow {s s' : Pipe α β ε} (hs : Flow f s) (h : worker f s = some s') :
    Flow f s' := by
  obtain ⟨done, hsent, hres, hfail⟩ := hs
  unfold worker at h
  split at h
  · cases h
  · rename_i x hno hheld
    split at h
    · rename_i y hy
      cases h
      refine ⟨done ++ [x], ?_, ?_, fun e he => by cases hno.symm.trans he⟩
      · simp [hsent, hheld]
      · rw [← List.append_assoc]
        exact List.rel_append hres (.cons hy .nil)
    · rename_i e he
      cases h
      exact ⟨done, hsent, hres, fun e' he' => by cases he'; exact ⟨x, hheld, he⟩⟩
  · rename_i hno hheld
    split at h
    · cases h
    · rename_i x input hinput
      cases h
      refine ⟨done, ?_, hres, fun e he => by cases hno.symm.trans he⟩
      simp [hsent, hheld, hinput]

theorem sink_flow {s s' : Pipe α β ε} (hs : Flow f s) (h : sink s = some s') : Flow f s' := by
  obtain ⟨done, hsent, hres, hfail⟩ := hs
  unfold sink at h
  split at h
  · rename_i y hgot
    cases h
    refine ⟨done, hsent, ?_, hfail⟩
    simpa [hgot] using hres
  · rename_i hgot
    split at h
    · cases h
    · rename_i y output hout
      cases h
      refine ⟨done, hsent, ?_, hfail⟩
      simpa [hgot, hout] using hres

theorem step_flow (a : Act α) (s s' : Pipe α β ε) (hs : Flow f s) (h : step f a s = some s') :
    Flow f s' := by
  cases a with
  | source x => exact source_flow hs h
  | worker => exact worker_flow hs h
  | sink => exact sink_flow hs h

theorem init_flow : Flow f ({} : Pipe α β ε) := ⟨[], rfl, .nil, nofun⟩

theorem run_flow {acts : List (Act α)} {s : Pipe α β ε}
    (h : Sched.run (step f) acts {} = some s) : Flow f s :=
  Sched.run_invariant step_flow init_flow h

theorem Flow.quiet {s : Pipe α β ε} (h : Flow f s) (hq : s.Quiet) :
    List.Forall₂ (fun x y => f x = .ok y) s.sent s.received := by
  obtain ⟨done, hsent, hres, -⟩ := h
  obtain ⟨hinput, hheld, hout, hgot⟩ := hq
  rw [hheld, hinput] at hsent
  rw [hgot, hout] at hres
  simpa [hsent] using hres

/-- What has come out are the results of the first items, in order. -/
theorem Flow.received_first {s : Pipe α β ε} (h : Flow f s) :
    ∃ xs rest, s.sent = xs ++ rest ∧ (s.Quiet → rest = []) ∧
      List.Forall₂ (fun x y => f x = .ok y) xs s.received := by
  obtain ⟨done, hsent, hres, -⟩ := h
  refine ⟨done.take s.received.length, done.drop s.received.length ++ s.held.toList ++ s.input,
    ?_, ?_, ?_⟩
  · rw [hsent, List.append_assoc, List.append_assoc, ← List.append_assoc (List.take _ _),
      List.take_append_drop]
  · rintro ⟨hinput, hheld, hout, hgot⟩
    have hlength := hres.length_eq
    rw [hout, hgot, Option.toList_none, List.append_nil, List.append_nil] at hlength
    rw [hinput, hheld, Option.toList_none, List.append_nil, List.append_nil, ← hlength,
      List.drop_length]
  · rw [List.append_assoc] at hres
    exact List.forall₂_take_append _ _ _ hres

/-- If `f` fails on all items, nothing comes out. -/
theorem Flow.received_nil {s : Pipe α β ε} (h : Flow f s)
    (hf : ∀ x ∈ s.sent, ∀ y, f x ≠ .ok y) : s.received = [] := by
  obtain ⟨done, hsent, hres, -⟩ := h
  cases done with
  | nil =>
    rw [List.forall₂_nil_left_iff, List.append_assoc, List.append_eq_nil_iff] at hres
    exact hres.1
  | cons x done =>
    obtain ⟨y, _, hy, -, -⟩ := List.forall₂_cons_left_iff.mp hres
    exact absurd hy (hf x (by simp [hsent]) y)

theorem Flow.failed {s : Pipe α β ε} (h : Flow f s) {e : ε} (he : s.failed = some e) :
    ∃ x ∈ s.sent, f x = .error e := by
  obtain ⟨done, hsent, -, hfail⟩ := h
  obtain ⟨x, hheld, hx⟩ := hfail e he
  refine ⟨x, ?_, hx⟩
  rw [hsent, hheld]
  simp

end Pipe
end SoundScreen
