import Mathlib.Logic.Relation
import Mathlib.Tactic.Basic

/-!
# SoundScreen.Lib.Sched

Threads that share a state. A system is a partial function `step t s`: the state after thread
`t` makes its next move from `s`, or `none` while `t` is blocked.

* `run step ts s`: the state after the schedule `ts`, `none` if a blocked thread was scheduled.
  A property of every interleaving is a property of every `ts` with `run step ts s = some s'`.
* `run_invariant`: what every step preserves, every run preserves.
* `run_simulates`: a forward simulation, one step to any number of abstract steps, lifts to runs.
* `exists_run_until`: a thread that can always move and whose measure goes down reaches its goal.
-/

namespace SoundScreen
namespace Sched

variable {τ σ ρ : Type*} {step : τ → σ → Option σ}

def run (step : τ → σ → Option σ) : List τ → σ → Option σ
  | [], s => some s
  | t :: ts, s =>
    match step t s with
    | none => none
    | some s' => run step ts s'

@[simp] theorem run_nil (s : σ) : run step [] s = some s := rfl

theorem run_cons {t : τ} {ts : List τ} {s s' : σ} (h : step t s = some s') :
    run step (t :: ts) s = run step ts s' := by
  simp [run, h]

theorem run_single {t : τ} {s s' : σ} (h : step t s = some s') :
    run step [t] s = some s' := by
  rw [run_cons h, run_nil]

theorem run_trans {ts us : List τ} {s s' s'' : σ} (h₁ : run step ts s = some s')
    (h₂ : run step us s' = some s'') : run step (ts ++ us) s = some s'' := by
  induction ts generalizing s with
  | nil => cases h₁; exact h₂
  | cons t ts ih =>
    simp only [run] at h₁
    split at h₁
    · cases h₁
    · rename_i s1 h1
      rw [List.cons_append, run_cons h1]
      exact ih h₁

theorem run_invariant {Inv : σ → Prop}
    (hstep : ∀ t s s', Inv s → step t s = some s' → Inv s') :
    ∀ {ts : List τ} {s s' : σ}, Inv s → run step ts s = some s' → Inv s' := by
  intro ts
  induction ts with
  | nil => intro s s' hi h; cases h; exact hi
  | cons t ts ih =>
    intro s s' hi h
    simp only [run] at h
    split at h
    · cases h
    · rename_i s1 h1
      exact ih (hstep t s s1 hi h1) h

/-- Forward simulation: if related states stay related, every run is matched by an abstract
run. A concrete step may match no abstract step at all. -/
theorem run_simulates {R : σ → ρ → Prop} {Step : ρ → ρ → Prop}
    (hsim : ∀ t s s' a, R s a → step t s = some s' →
      ∃ a', Relation.ReflTransGen Step a a' ∧ R s' a') :
    ∀ {ts : List τ} {s s' : σ} {a : ρ}, R s a → run step ts s = some s' →
      ∃ a', Relation.ReflTransGen Step a a' ∧ R s' a' := by
  intro ts
  induction ts with
  | nil => intro s s' a hR h; cases h; exact ⟨a, .refl, hR⟩
  | cons t ts ih =>
    intro s s' a hR h
    simp only [run] at h
    split at h
    · cases h
    · rename_i s1 h1
      obtain ⟨a1, ha1, hR1⟩ := hsim t s s1 a hR h1
      obtain ⟨a', ha', hR'⟩ := ih hR1 h
      exact ⟨a', ha1.trans ha', hR'⟩

/-- A thread that can move as long as the goal `Q` is not reached, keeping `P` and lowering `μ`
until it gets there, reaches `Q` when it is scheduled alone. -/
theorem exists_run_until {t : τ} {P Q : σ → Prop} (μ : σ → Nat)
    (h : ∀ s, P s → ¬ Q s → ∃ s', step t s = some s' ∧ P s' ∧ (Q s' ∨ μ s' < μ s)) :
    ∀ s, P s → ∃ ts s', run step ts s = some s' ∧ P s' ∧ Q s' := by
  intro s
  induction hm : μ s using Nat.strongRecOn generalizing s with
  | ind m ih =>
    intro hP
    by_cases hQ : Q s
    · exact ⟨[], s, rfl, hP, hQ⟩
    · obtain ⟨s1, h1, hP1, hQ1 | hlt⟩ := h s hP hQ
      · exact ⟨[t], s1, run_single h1, hP1, hQ1⟩
      · obtain ⟨ts, s', hr, hP', hQ'⟩ := ih (μ s1) (hm ▸ hlt) s1 rfl hP1
        exact ⟨t :: ts, s', by rw [run_cons h1]; exact hr, hP', hQ'⟩

end Sched
end SoundScreen
