import Mathlib.Data.List.Infix

/-!
# SoundScreen.Lib.Windows

The runs of `n` neighbouring elements of a list.

* `isWindow_iff`: they are what is left after dropping at the front and taking `n`.
* `isWindow_iff_dropLast_or`: all but the last one are runs of the list without its last element.
-/

namespace SoundScreen
namespace Windows

variable {α : Type*}

/-- `w` is a run of `n` elements of `xs`. -/
def IsWindow (n : Nat) (xs w : List α) : Prop := w.length = n ∧ w <:+: xs

instance [DecidableEq α] (n : Nat) (xs w : List α) : Decidable (IsWindow n xs w) :=
  inferInstanceAs (Decidable (_ ∧ _))

theorem isWindow_of_add_le {n start : Nat} {xs : List α} (h : start + n ≤ xs.length) :
    IsWindow n xs ((xs.drop start).take n) := by
  refine ⟨?_, ?_⟩
  · rw [List.length_take, List.length_drop]
    omega
  · exact (List.take_prefix n _).isInfix.trans (List.drop_suffix start xs).isInfix

theorem isWindow_iff {n : Nat} {xs w : List α} :
    IsWindow n xs w ↔ ∃ start, start + n ≤ xs.length ∧ (xs.drop start).take n = w := by
  constructor
  · rintro ⟨rfl, s, t, rfl⟩
    refine ⟨s.length, ?_, ?_⟩
    · rw [List.length_append, List.length_append]
      omega
    · rw [List.append_assoc, List.drop_left, List.take_left]
  · rintro ⟨start, hle, rfl⟩
    exact isWindow_of_add_le hle

theorem take_drop_dropLast {n start : Nat} {xs : List α} (h : start + n < xs.length) :
    (xs.dropLast.drop start).take n = (xs.drop start).take n := by
  rw [List.dropLast_eq_take, List.drop_take, List.take_take, min_eq_left (by omega)]

/-- The runs of the list without its last element are those that end before it. -/
theorem isWindow_dropLast_iff {n : Nat} {xs w : List α} (hpos : 0 < xs.length) :
    IsWindow n xs.dropLast w ↔ ∃ start, start + n < xs.length ∧ (xs.drop start).take n = w := by
  rw [isWindow_iff, List.length_dropLast]
  refine exists_congr fun start => ?_
  have hiff : start + n ≤ xs.length - 1 ↔ start + n < xs.length := by omega
  rw [hiff]
  refine and_congr_right fun hlt => ?_
  rw [take_drop_dropLast hlt]

/-- A run ends before the last element, or it is the last run. -/
theorem isWindow_iff_dropLast_or {n : Nat} {xs w : List α} (hpos : 0 < xs.length)
    (hn : n ≤ xs.length) :
    IsWindow n xs w ↔ IsWindow n xs.dropLast w ∨ xs.drop (xs.length - n) = w := by
  have hlast : (xs.drop (xs.length - n)).take n = xs.drop (xs.length - n) := by
    refine List.take_of_length_le ?_
    rw [List.length_drop]
    omega
  rw [isWindow_iff, isWindow_dropLast_iff hpos]
  constructor
  · rintro ⟨start, hle, rfl⟩
    rcases Nat.lt_or_eq_of_le hle with hlt | heq
    · exact .inl ⟨start, hlt, rfl⟩
    · refine .inr ?_
      rw [show start = xs.length - n by omega, hlast]
  · rintro (⟨start, hlt, rfl⟩ | rfl)
    · exact ⟨start, hlt.le, rfl⟩
    · exact ⟨xs.length - n, by omega, hlast⟩

theorem isWindow_length_iff {xs w : List α} : IsWindow xs.length xs w ↔ w = xs := by
  constructor
  · rintro ⟨hlen, hinfix⟩
    exact hinfix.eq_of_length hlen
  · rintro rfl
    exact ⟨rfl, List.infix_rfl⟩

end Windows
end SoundScreen
