import Mathlib.Algebra.Order.Field.Basic
import Mathlib.Data.List.OfFn
import Mathlib.Tactic.Linarith
import Mathlib.Tactic.Ring

/-!
# SoundScreen.Lib.Ramp

Ramps between two values, and the evenly spaced one.

* `IsRamp a b xs`: the list rises from `a` towards `b`, or falls, and stays between them.
* `IsRamp.map`: a monotone function takes ramps to ramps; rounding is one.
* `linspace_isRamp`, `linspace_head?`: `linspace a b num` is a ramp that starts at `a`.
-/

namespace SoundScreen
namespace Ramp

section Order

variable {α β : Type*} [Preorder α] [Preorder β]

def IsRamp (a b : α) (xs : List α) : Prop :=
  (a ≤ b ∧ xs.Pairwise (· ≤ ·) ∧ ∀ x ∈ xs, a ≤ x ∧ x ≤ b) ∨
    (b ≤ a ∧ xs.Pairwise (· ≥ ·) ∧ ∀ x ∈ xs, b ≤ x ∧ x ≤ a)

theorem IsRamp.map {f : α → β} (hf : Monotone f) {a b : α} {xs : List α} (h : IsRamp a b xs) :
    IsRamp (f a) (f b) (xs.map f) := by
  rcases h with ⟨hab, hmono, hmem⟩ | ⟨hba, hmono, hmem⟩
  · refine Or.inl ⟨hf hab, hmono.map f fun _ _ hxy => hf hxy, ?_⟩
    intro y hy
    obtain ⟨x, hx, rfl⟩ := List.mem_map.mp hy
    exact ⟨hf (hmem x hx).1, hf (hmem x hx).2⟩
  · refine Or.inr ⟨hf hba, hmono.map f fun _ _ hxy => hf hxy, ?_⟩
    intro y hy
    obtain ⟨x, hx, rfl⟩ := List.mem_map.mp hy
    exact ⟨hf (hmem x hx).1, hf (hmem x hx).2⟩

end Order

section Field

variable {K : Type*} [Field K]

/-- `num` evenly spaced values from `start`, the last of them `stop` if there is room. -/
def linspace (start stop : K) (num : Nat) : List K :=
  (List.range num).map fun (i : Nat) => start + i * ((stop - start) / (num - 1 : Nat))

@[simp] theorem linspace_length (start stop : K) (num : Nat) :
    (linspace start stop num).length = num := by
  simp [linspace]

theorem linspace_head? (start stop : K) {num : Nat} (h : 0 < num) :
    (linspace start stop num).head? = some start := by
  rw [linspace, List.head?_eq_getElem?, List.getElem?_map, List.getElem?_range h]
  simp

variable [LinearOrder K] [IsStrictOrderedRing K]

/-- The slope is chosen so that the last value does not pass `stop`. -/
theorem step_mul_le {d : K} (hd : 0 ≤ d) {i num : Nat} (h : i < num) :
    i * (d / (num - 1 : Nat)) ≤ d := by
  by_cases hn : num - 1 = 0
  · rw [hn, Nat.cast_zero, div_zero, mul_zero]
    exact hd
  · have hpos : (0 : K) < (num - 1 : Nat) := Nat.cast_pos.mpr (by omega)
    have hle : (i : K) ≤ (num - 1 : Nat) := Nat.cast_le.mpr (by omega)
    calc (i : K) * (d / (num - 1 : Nat)) ≤ (num - 1 : Nat) * (d / (num - 1 : Nat)) :=
          mul_le_mul_of_nonneg_right hle (div_nonneg hd hpos.le)
      _ = d := mul_div_cancel₀ d hpos.ne'

theorem linspace_rises {start stop : K} (h : start ≤ stop) (num : Nat) :
    (linspace start stop num).Pairwise (· ≤ ·) ∧
      ∀ x ∈ linspace start stop num, start ≤ x ∧ x ≤ stop := by
  have hd : 0 ≤ stop - start := sub_nonneg.mpr h
  have hstep : 0 ≤ (stop - start) / (num - 1 : Nat) := div_nonneg hd (Nat.cast_nonneg _)
  constructor
  · rw [linspace, List.pairwise_map]
    refine List.pairwise_lt_range.imp ?_
    intro i j hij
    have hle : (i : K) ≤ j := Nat.cast_le.mpr hij.le
    have := mul_le_mul_of_nonneg_right hle hstep
    linarith
  · intro x hx
    obtain ⟨i, hi, rfl⟩ := List.mem_map.mp hx
    have h₀ : 0 ≤ i * ((stop - start) / (num - 1 : Nat)) := mul_nonneg (Nat.cast_nonneg i) hstep
    have h₁ := step_mul_le hd (List.mem_range.mp hi)
    constructor <;> linarith

theorem linspace_neg (start stop : K) (num : Nat) :
    linspace start stop num = (linspace (-start) (-stop) num).map (- ·) := by
  rw [linspace, linspace, List.map_map]
  refine List.map_congr_left ?_
  intro i _
  simp only [Function.comp_apply]
  ring

theorem linspace_isRamp (start stop : K) (num : Nat) :
    IsRamp start stop (linspace start stop num) := by
  rcases le_total start stop with h | h
  · exact Or.inl ⟨h, linspace_rises h num⟩
  · obtain ⟨hmono, hmem⟩ := linspace_rises (neg_le_neg h) num
    refine Or.inr ⟨h, ?_, ?_⟩
    · rw [linspace_neg]
      exact hmono.map _ fun _ _ hxy => neg_le_neg hxy
    · rw [linspace_neg]
      intro y hy
      obtain ⟨x, hx, rfl⟩ := List.mem_map.mp hy
      exact ⟨le_neg.mpr (hmem x hx).2, neg_le.mpr (hmem x hx).1⟩

end Field

end Ramp
end SoundScreen
