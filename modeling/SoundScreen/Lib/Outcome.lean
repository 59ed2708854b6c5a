import Mathlib.Tactic.Basic

/-!
# SoundScreen.Lib.Outcome

Computations that can fail, with a postcondition for each way to end: `Ends P E r` says that `r`
is a value with `P` or an error with `E`.

`Ends.bind` is the rule for one computation after another, `Ends.foldlM` the rule for a loop with
the invariant `P`. `foldlM_keeps` and `foldlM_each` are for loops that have returned: what each step
keeps, and what each step does for its own element. `foldlM_follows` is for a second loop, in
another monad, that does what the returned one did.
-/

namespace SoundScreen
namespace Outcome

variable {ε α β : Type} {P : α → Prop} {Q : β → Prop} {E : ε → Prop}

def Ends (P : α → Prop) (E : ε → Prop) (r : Except ε α) : Prop :=
  (∃ a, r = .ok a ∧ P a) ∨ ∃ e, r = .error e ∧ E e

theorem Ends.ok {a : α} (h : P a) : Ends P E (.ok a) := .inl ⟨a, rfl, h⟩

theorem Ends.error {e : ε} (h : E e) : Ends P E (.error e) := .inr ⟨e, rfl, h⟩

theorem Ends.of_ok {a : α} (h : Ends P E (.ok a)) : P a := by
  rcases h with ⟨_, ha, hP⟩ | ⟨_, hfail, -⟩
  · cases ha
    exact hP
  · cases hfail

theorem Ends.bind {r : Except ε α} {f : α → Except ε β} (h : Ends P E r)
    (hf : ∀ a, P a → Ends Q E (f a)) : Ends Q E (r >>= f) := by
  rcases h with ⟨a, rfl, ha⟩ | ⟨e, rfl, he⟩
  · exact hf a ha
  · exact .error he

theorem Ends.foldlM {f : α → β → Except ε α} (hf : ∀ a b, P a → Ends P E (f a b)) (l : List β)
    {a : α} (ha : P a) : Ends P E (l.foldlM f a) := by
  induction l generalizing a with
  | nil => exact .ok ha
  | cons b l ih =>
    rw [List.foldlM_cons]
    exact (hf a b ha).bind fun a' ha' => ih ha'

theorem bind_eq_ok {r : Except ε α} {f : α → Except ε β} {b : β} (h : r >>= f = .ok b) :
    ∃ a, r = .ok a ∧ f a = .ok b := by
  cases r with
  | error e => cases h
  | ok a => exact ⟨a, rfl, h⟩

theorem foldlM_concat {f : α → β → Except ε α} {l : List β} {b : β} {a a' : α}
    (h : (l ++ [b]).foldlM f a = .ok a') : ∃ mid, l.foldlM f a = .ok mid ∧ f mid b = .ok a' := by
  rw [List.foldlM_append] at h
  obtain ⟨mid, hmid, hlast⟩ := bind_eq_ok h
  obtain ⟨_, hb, hend⟩ := bind_eq_ok hlast
  cases hend
  exact ⟨mid, hmid, hb⟩

theorem foldlM_keeps {f : α → β → Except ε α} (hf : ∀ a b a', f a b = .ok a' → P a → P a')
    {l : List β} {a a' : α} (h : l.foldlM f a = .ok a') (ha : P a) : P a' := by
  induction l generalizing a with
  | nil =>
    cases h
    exact ha
  | cons b l ih =>
    rw [List.foldlM_cons] at h
    obtain ⟨mid, hmid, hrest⟩ := bind_eq_ok h
    exact ih hrest (hf a b mid hmid ha)

/-- What a step does for its element and no step undoes, a loop has done for all. -/
theorem foldlM_each {f : α → β → Except ε α} {D : β → α → Prop}
    (hf : ∀ a b a', f a b = .ok a' → D b a' ∧ ∀ c, D c a → D c a') {l : List β} {a a' : α}
    (h : l.foldlM f a = .ok a') : ∀ b ∈ l, D b a' := by
  induction l generalizing a with
  | nil => nofun
  | cons b l ih =>
    rw [List.foldlM_cons] at h
    obtain ⟨mid, hmid, hrest⟩ := bind_eq_ok h
    intro c hc
    rcases List.mem_cons.mp hc with rfl | hc
    · exact foldlM_keeps (fun a b a' hok => (hf a b a' hok).2 c) hrest (hf a c mid hmid).1
    · exact ih hrest c hc

/-- A loop follows one that has returned, in the relation `R`, when its steps do. -/
theorem foldlM_follows {m : Type → Type} [Monad m] [LawfulMonad m] {γ : Type} {R : α → γ → Prop}
    {f : α → β → Except ε α} {g : γ → β → m γ}
    (hg : ∀ a b a' c, f a b = .ok a' → R a c → ∃ c', g c b = pure c' ∧ R a' c') {l : List β}
    {a a' : α} {c : γ} (h : l.foldlM f a = .ok a') (hac : R a c) :
    ∃ c', l.foldlM g c = pure c' ∧ R a' c' := by
  induction l generalizing a c with
  | nil =>
    cases h
    exact ⟨c, rfl, hac⟩
  | cons b l ih =>
    rw [List.foldlM_cons] at h
    obtain ⟨mid, hmid, hrest⟩ := bind_eq_ok h
    obtain ⟨c', hstep, hmc⟩ := hg a b mid c hmid hac
    rw [List.foldlM_cons, hstep, pure_bind]
    exact ih hrest hmc

end Outcome
end SoundScreen
