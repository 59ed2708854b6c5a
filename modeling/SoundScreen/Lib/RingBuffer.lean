import Mathlib.Data.List.Basic
import Mathlib.Logic.Function.Basic
import Mathlib.Tactic.Basic

/-!
# SoundScreen.Lib.RingBuffer

Rings of `n` places with the last `n` numbers of a stream.

* `places`: from the oldest place on, first those up to the end and then those before it.
* `Holds.write`: when the oldest number is overwritten with the next one, the ring holds the stream
  from one place further on.
-/

namespace SoundScreen
namespace RingBuffer

open Function (update)

variable {α : Type*}

/-- The place after `o`. -/
def next (n o : Nat) : Nat := if o + 1 = n then 0 else o + 1

theorem next_eq {n o : Nat} (h : o < n) : next n o = (o + 1) % n := by
  rw [next]
  split
  · rename_i hlast
    rw [hlast, Nat.mod_self]
  · rw [Nat.mod_eq_of_lt (by omega)]

/-- The places of the ring from the oldest on. -/
theorem places {n o : Nat} (h : o < n) :
    List.range' o (n - o) ++ List.range o = (List.range n).map fun j => (o + j) % n := by
  have hsplit : n = n - o + o := by omega
  conv_rhs => rw [hsplit, List.range_add, List.map_append, List.map_map]
  rw [List.range'_eq_map_range]
  congr 1
  · refine List.map_congr_left ?_
    intro j hj
    have hj := List.mem_range.mp hj
    rw [← hsplit, Nat.mod_eq_of_lt (by omega)]
  · conv_lhs => rw [← List.map_id (List.range o)]
    refine List.map_congr_left ?_
    intro j hj
    have hj := List.mem_range.mp hj
    rw [Function.comp_apply, ← hsplit, show o + (n - o + j) = j + n by omega, Nat.add_mod_right,
      Nat.mod_eq_of_lt (by omega), id]

/-- The ring holds `n` numbers of `x`, from `t` on, the oldest at `o`. -/
structure Holds (n : Nat) (x : Nat → α) (t : Nat) (cell : Nat → α) (o : Nat) : Prop where
  lt : o < n
  cell : ∀ j < n, cell ((o + j) % n) = x (t + j)

theorem Holds.write {n : Nat} {x : Nat → α} {t : Nat} {cell : Nat → α} {o : Nat}
    (h : Holds n x t cell o) : Holds n x (t + 1) (update cell o (x (t + n))) (next n o) := by
  have hlt := h.lt
  rw [next_eq hlt]
  refine ⟨Nat.mod_lt _ (by omega), ?_⟩
  intro j hj
  rw [Nat.mod_add_mod, show o + 1 + j = o + (j + 1) by omega]
  by_cases hlast : j + 1 = n
  · rw [hlast, Nat.add_mod_right, Nat.mod_eq_of_lt hlt, Function.update_self,
      show t + n = t + 1 + j by omega]
  · rw [Function.update_of_ne, h.cell (j + 1) (by omega), show t + (j + 1) = t + 1 + j by omega]
    intro heq
    rcases Nat.lt_or_ge (o + (j + 1)) n with hin | hround
    · rw [Nat.mod_eq_of_lt hin] at heq
      omega
    · rw [Nat.mod_eq_sub_mod hround, Nat.mod_eq_of_lt (by omega)] at heq
      omega

end RingBuffer
end SoundScreen
