import Mathlib.Logic.Function.Basic
import Mathlib.Tactic.Basic

/-!
# SoundScreen.Lib.Loop

Counting loops as folds, in any lawful monad.

* `foldlM_range_eq`: a loop whose passes lead from each of a sequence of states to the next.
* `foldlM_ok`: a loop whose passes succeed and keep an invariant.
* `foldlM_update`: a loop that computes a table.
* `foldl_update`: a loop that writes to one place after another.
* `foldl_modify`: a loop that rewrites the first places.
* `foldl_mirror`: a loop that fills a table from both ends.
-/

namespace SoundScreen
namespace Loop

universe u v w

section Monadic

variable {m : Type u → Type v} [Monad m] [LawfulMonad m] {α : Type w} {β : Type u}

theorem foldlM_range_succ (f : β → Nat → m β) (b : β) (n : Nat) :
    (List.range (n + 1)).foldlM f b = (List.range n).foldlM f b >>= fun b => f b n := by
  rw [List.range_succ, List.foldlM_append]
  simp only [List.foldlM_cons, List.foldlM_nil, bind_pure]

theorem foldlM_range_eq {f : β → Nat → m β} (state : Nat → β) {n : Nat}
    (h : ∀ k < n, f (state k) k = pure (state (k + 1))) :
    (List.range n).foldlM f (state 0) = pure (state n) := by
  induction n with
  | zero => rfl
  | succ n ih =>
    rw [foldlM_range_succ, ih fun k hk => h k (Nat.lt_succ_of_lt hk), pure_bind]
    exact h n (Nat.lt_succ_self n)

theorem foldlM_ok {P : β → Prop} {f : β → α → m β} {l : List α} {b : β} (hb : P b)
    (hf : ∀ b, ∀ a ∈ l, P b → ∃ b', f b a = pure b' ∧ P b') :
    ∃ b', l.foldlM f b = pure b' ∧ P b' := by
  induction l generalizing b with
  | nil => exact ⟨b, rfl, hb⟩
  | cons a l ih =>
    obtain ⟨b', hstep, hb'⟩ := hf b a List.mem_cons_self hb
    rw [List.foldlM_cons, hstep, pure_bind]
    exact ih hb' fun b a ha => hf b a (List.mem_cons_of_mem _ ha)

/-- A loop that computes the places of a table one after another. -/
theorem foldlM_update {ι γ : Type u} [DecidableEq ι] {f : ι → m γ} {v : ι → γ}
    (h : ∀ i, f i = pure (v i)) (l : List ι) (table : ι → γ) :
    l.foldlM (fun table i => return Function.update table i (← f i)) table =
      pure fun i => if i ∈ l then v i else table i := by
  induction l generalizing table with
  | nil =>
    simp only [List.foldlM_nil, List.not_mem_nil, if_false]
  | cons i l ih =>
    rw [List.foldlM_cons, h, pure_bind, pure_bind, ih]
    refine congrArg pure (funext fun j => ?_)
    by_cases hj : j = i
    · subst hj
      rw [Function.update_self, if_pos List.mem_cons_self, ite_self]
    · rw [Function.update_of_ne hj]
      simp only [List.mem_cons, hj, false_or]

end Monadic

theorem foldl_range_eq {β : Type u} {f : β → Nat → β} (state : Nat → β) {n : Nat}
    (h : ∀ k < n, f (state k) k = state (k + 1)) : (List.range n).foldl f (state 0) = state n := by
  induction n with
  | zero => rfl
  | succ n ih =>
    rw [List.range_succ, List.foldl_append, ih fun k hk => h k (Nat.lt_succ_of_lt hk)]
    exact h n (Nat.lt_succ_self n)

section Writes

variable {α : Type u} {β : Type v} [DecidableEq β]

theorem foldl_update_of_ne (place : Nat → β) (v : Nat → α) (mem : β → α) {n : Nat} {a : β}
    (h : ∀ k < n, a ≠ place k) :
    (List.range n).foldl (fun mem k => Function.update mem (place k) (v k)) mem a = mem a := by
  induction n with
  | zero => rfl
  | succ n ih =>
    rw [List.range_succ, List.foldl_append, List.foldl_cons, List.foldl_nil,
      Function.update_of_ne (h n (Nat.lt_succ_self n))]
    exact ih fun k hk => h k (Nat.lt_succ_of_lt hk)

theorem foldl_update (place : Nat → β) (v : Nat → α) (mem : β → α) {n k : Nat} (hk : k < n)
    (h : ∀ j < n, j ≠ k → place k ≠ place j) :
    (List.range n).foldl (fun mem k => Function.update mem (place k) (v k)) mem (place k) =
      v k := by
  induction n with
  | zero => exact absurd hk (Nat.not_lt_zero k)
  | succ n ih =>
    rw [List.range_succ, List.foldl_append, List.foldl_cons, List.foldl_nil]
    by_cases hlast : k = n
    · rw [hlast, Function.update_self]
    · rw [Function.update_of_ne (h n (Nat.lt_succ_self n) fun heq => hlast heq.symm)]
      exact ih (by omega) fun j hj => h j (Nat.lt_succ_of_lt hj)

theorem foldl_modify (g : Nat → α → α) (mem : Nat → α) (n : Nat) :
    (List.range n).foldl (fun mem k => Function.update mem k (g k (mem k))) mem =
      fun a => if a < n then g a (mem a) else mem a := by
  induction n with
  | zero =>
    funext a
    exact (if_neg (Nat.not_lt_zero a)).symm
  | succ n ih =>
    rw [List.range_succ, List.foldl_append, ih, List.foldl_cons, List.foldl_nil]
    funext a
    by_cases ha : a = n
    · subst ha
      rw [Function.update_self, if_pos (Nat.lt_succ_self a)]
      dsimp only
      rw [if_neg (Nat.lt_irrefl a)]
    · have hiff : a < n ↔ a < n + 1 := by omega
      rw [Function.update_of_ne ha]
      simp only [hiff]

/-- What is right already and one more value. -/
theorem update_agree (P : β → Prop) [DecidablePred P] (f mem : β → α) (b : β) :
    Function.update (fun a => if P a then f a else mem a) b (f b) =
      fun a => if P a ∨ a = b then f a else mem a := by
  funext a
  by_cases ha : a = b
  · subst ha
    rw [Function.update_self, if_pos (.inr rfl)]
  · rw [Function.update_of_ne ha]
    simp only [ha, or_false]

/-- A table that is filled from both ends, up to its middle. -/
theorem foldl_mirror {turn : (Nat → α) → Nat → Nat → α} (f mem : Nat → α) {n top : Nat}
    (hn : n ≤ top) (htop : 0 < top)
    (h : ∀ mem, ∀ k < n / 2, turn mem k =
      Function.update (Function.update mem (k + 1) (f (k + 1))) (n - (k + 1)) (f (n - (k + 1)))) :
    (List.range (n / 2)).foldl turn (fun a => if a = 0 ∨ n ≤ a ∧ a < top then f a else mem a) =
      fun a => if a < top then f a else mem a := by
  have hloop := foldl_range_eq (n := n / 2) (f := turn)
    (fun k a => if a ≤ k ∨ n - k ≤ a ∧ a < top then f a else mem a) (by
      intro k hk
      rw [h _ k hk, update_agree, update_agree]
      funext a
      have hiff : ((a ≤ k ∨ n - k ≤ a ∧ a < top) ∨ a = k + 1) ∨ a = n - (k + 1) ↔
          a ≤ k + 1 ∨ n - (k + 1) ≤ a ∧ a < top := by
        omega
      simp only [hiff])
  simp only [Nat.le_zero, Nat.sub_zero] at hloop
  rw [hloop]
  funext a
  have hiff : a ≤ n / 2 ∨ n - n / 2 ≤ a ∧ a < top ↔ a < top := by
    omega
  simp only [hiff]

end Writes

end Loop
end SoundScreen
