import SoundScreen.Lib.Dft

/-!
# SoundScreen.Lib.Fir

Filters with finitely many taps on sequences.

* `circular_rotated`: the part of a circular convolution where nothing has gone round is the linear
  convolution, if the taps are rotated.
* `valid_flip`: with the taps the other way round, the convolution is the correlation.
-/

namespace SoundScreen
namespace Fir

open Finset

variable {A : Type*} [CommRing A]

/-- The convolution with `n` taps, from where all of them are in the sequence. -/
def valid (h : Nat → A) (n : Nat) (x : Nat → A) (t : Nat) : A :=
  ∑ i ∈ range n, h i * x (t + (n - 1 - i))

theorem valid_congr {h : Nat → A} {n : Nat} {x y : Nat → A} {t : Nat}
    (hxy : ∀ a, t ≤ a → a < t + n → x a = y a) : valid h n x t = valid h n y t := by
  refine sum_congr rfl ?_
  intro i hi
  have hi := mem_range.mp hi
  rw [hxy _ (by omega) (by omega)]

theorem valid_shift (h : Nat → A) (n : Nat) (x : Nat → A) (p t : Nat) :
    valid h n (fun i => x (p + i)) t = valid h n x (p + t) := by
  refine sum_congr rfl ?_
  intro i _
  rw [Nat.add_assoc]

theorem valid_flip (h : Nat → A) (n : Nat) (x : Nat → A) (t : Nat) :
    valid h n x t = ∑ d ∈ range n, h (n - 1 - d) * x (t + d) := by
  rw [valid, ← sum_range_reflect]
  refine sum_congr rfl ?_
  intro d hd
  have hd := mem_range.mp hd
  rw [show n - 1 - (n - 1 - d) = d by omega]

/-- The sequence after `d` zeros. -/
def delay (d : Nat) (x : Nat → A) (t : Nat) : A := if t < d then 0 else x (t - d)

theorem delay_add (d : Nat) (x : Nat → A) (t : Nat) : delay d x (d + t) = x t := by
  rw [delay, if_neg (by omega), Nat.add_sub_cancel_left]

theorem valid_delay (h : Nat → A) (n : Nat) (x : Nat → A) (d t : Nat) :
    valid h n (delay d x) (d + t) = valid h n x t := by
  rw [← valid_shift]
  exact valid_congr fun a _ _ => delay_add d x a

/-- The taps in a circle of `size` places, the last one at its start. -/
def rotated (h : Nat → A) (n size a : Nat) : A :=
  if a = 0 then h (n - 1) else if size - n + 1 ≤ a then h (a - (size - n + 1)) else 0

theorem circular_rotated (h : Nat → A) {n size : Nat} (hn : 0 < n) (x : Nat → A) {t : Nat}
    (ht : t + n ≤ size) : Dft.circular size x (rotated h n size) t = valid h n x t := by
  have htap : ∀ j ∈ range size, x j * rotated h n size ((t + (size - j)) % size) =
      if j ∈ Ico t (t + n) then x j * h (t + (n - 1) - j) else 0 := by
    intro j hj
    have hj := mem_range.mp hj
    rcases Nat.lt_trichotomy j t with hlt | rfl | hgt
    · have hplace : (t + (size - j)) % size = t - j := by
        rw [show t + (size - j) = t - j + size by omega, Nat.add_mod_right,
          Nat.mod_eq_of_lt (by omega)]
      rw [hplace, rotated, if_neg (by omega), if_neg (by omega), mul_zero, if_neg]
      rw [mem_Ico]
      omega
    · have hplace : (j + (size - j)) % size = 0 := by
        rw [Nat.add_sub_cancel' (Nat.le_of_lt hj), Nat.mod_self]
      rw [hplace, rotated, if_pos rfl, if_pos (mem_Ico.mpr ⟨by omega, by omega⟩),
        Nat.add_sub_cancel_left]
    · have hplace : (t + (size - j)) % size = t + (size - j) := Nat.mod_eq_of_lt (by omega)
      rw [hplace, rotated, if_neg (by omega)]
      by_cases hin : j < t + n
      · rw [if_pos (by omega), if_pos (mem_Ico.mpr ⟨by omega, hin⟩),
          show t + (size - j) - (size - n + 1) = t + (n - 1) - j by omega]
      · rw [if_neg (by omega), mul_zero, if_neg]
        rw [mem_Ico]
        omega
  have hinside : Ico t (t + n) ⊆ range size := by
    intro j hj
    exact mem_range.mpr ((mem_Ico.mp hj).2.trans_le ht)
  calc Dft.circular size x (rotated h n size) t
      = ∑ j ∈ range size, if j ∈ Ico t (t + n) then x j * h (t + (n - 1) - j) else 0 :=
        sum_congr rfl htap
    _ = ∑ j ∈ Ico t (t + n), x j * h (t + (n - 1) - j) := by
        rw [← sum_filter]
        congr 1
        ext j
        rw [mem_filter]
        exact ⟨fun hj => hj.2, fun hj => ⟨hinside hj, hj⟩⟩
    _ = ∑ d ∈ range n, h (n - 1 - d) * x (t + d) := by
        rw [sum_Ico_eq_sum_range, Nat.add_sub_cancel_left]
        refine sum_congr rfl ?_
        intro d _
        rw [Nat.add_sub_add_left, mul_comm]
    _ = valid h n x t := (valid_flip h n x t).symm

end Fir
end SoundScreen
