import Mathlib.Data.Nat.Init
import Mathlib.Tactic.Basic
import Mathlib.Tactic.Ring

/-!
# SoundScreen.Lib.Columns

Cells of a memory that is a function, from place `o` on, as `p` rows of `m` cells, with a loop over
the `m` columns that rewrites one column at a time, and a loop over the rows that writes one row at
a time.

* `Pass.cell`: after the first loop a column is what its turn makes of it alone.
* `Fills.cell`: after the second loop a row is what its turn writes.
* `Pass.other`, `Fills.other`: every other cell is as it was.
-/

namespace SoundScreen
namespace Columns

variable {α : Type*}

/-- Column `u` of the rows of `m` cells from `o` on. -/
def column (mem : Nat → α) (o m u : Nat) : Nat → α := fun q => mem (o + (u + q * m))

theorem cell_ne {o m u v q r : Nat} (hu : u < m) (hv : v < m) (h : u ≠ v) :
    o + (u + q * m) ≠ o + (v + r * m) := by
  intro heq
  have hmod := congrArg (· % m) (Nat.add_left_cancel heq)
  simp only [Nat.add_mul_mod_self_right, Nat.mod_eq_of_lt hu, Nat.mod_eq_of_lt hv] at hmod
  exact h hmod

theorem cell_ne_row {o m u q r : Nat} (hm : 0 < m) (h : q ≠ r) :
    o + (u + q * m) ≠ o + (u + r * m) := by
  intro heq
  exact h (Nat.eq_of_mul_eq_mul_right hm (Nat.add_left_cancel (Nat.add_left_cancel heq)))

theorem ne_place {o p m u q a : Nat} (hu : u < m) (hq : q < p) (ha : a < o ∨ o + p * m ≤ a) :
    a ≠ o + (u + q * m) := by
  have hrow : (q + 1) * m ≤ p * m := Nat.mul_le_mul_right m hq
  rw [Nat.succ_mul] at hrow
  omega

/-- A turn of the loop rewrites its column by `g`, and nothing else. -/
structure Pass (body : (Nat → α) → Nat → Nat → α) (o p m : Nat)
    (g : Nat → (Nat → α) → Nat → α) : Prop where
  row : ∀ mem, ∀ u < m, ∀ q < p, body mem u (o + (u + q * m)) = g u (column mem o m u) q
  rest : ∀ mem, ∀ u < m, ∀ a, (∀ q < p, a ≠ o + (u + q * m)) → body mem u a = mem a

variable {body : (Nat → α) → Nat → Nat → α} {o p m : Nat} {g : Nat → (Nat → α) → Nat → α}

theorem Pass.rest_column (h : Pass body o p m g) (mem : Nat → α) {u v : Nat} (hu : u < m)
    (hv : v < m) (hne : u ≠ v) : column (body mem v) o m u = column mem o m u := by
  funext q
  exact h.rest mem v hv _ fun r _ => cell_ne hu hv hne

theorem Pass.column_foldl (h : Pass body o p m g) (mem : Nat → α) {n u : Nat} (hn : n ≤ u)
    (hu : u < m) : column ((List.range n).foldl body mem) o m u = column mem o m u := by
  induction n with
  | zero => rfl
  | succ n ih =>
    rw [List.range_succ, List.foldl_append, List.foldl_cons, List.foldl_nil,
      h.rest_column _ hu (by omega) (by omega)]
    exact ih (by omega)

theorem Pass.cell (h : Pass body o p m g) (mem : Nat → α) {u q : Nat} (hu : u < m) (hq : q < p) :
    (List.range m).foldl body mem (o + (u + q * m)) = g u (column mem o m u) q := by
  -- the turns after `u` leave the column alone, and so do those before
  have hturns : ∀ n, u < n → n ≤ m →
      (List.range n).foldl body mem (o + (u + q * m)) = g u (column mem o m u) q := by
    intro n
    induction n with
    | zero => exact fun hlt => absurd hlt (Nat.not_lt_zero u)
    | succ n ih =>
      intro hlt hle
      rw [List.range_succ, List.foldl_append, List.foldl_cons, List.foldl_nil]
      rcases Nat.lt_or_ge u n with hun | hnu
      · rw [h.rest _ n (by omega) _ fun r _ => cell_ne hu (by omega) (by omega)]
        exact ih hun (by omega)
      · obtain rfl : u = n := by omega
        rw [h.row _ u hu q hq, h.column_foldl mem (Nat.le_refl u) hu]
  exact hturns m hu (Nat.le_refl m)

theorem Pass.other (h : Pass body o p m g) (mem : Nat → α) {a : Nat}
    (ha : a < o ∨ o + p * m ≤ a) : (List.range m).foldl body mem a = mem a := by
  have hturns : ∀ n ≤ m, (List.range n).foldl body mem a = mem a := by
    intro n
    induction n with
    | zero => exact fun _ => rfl
    | succ n ih =>
      intro hle
      rw [List.range_succ, List.foldl_append, List.foldl_cons, List.foldl_nil,
        h.rest _ n (by omega) a fun q hq => ne_place (by omega) hq ha]
      exact ih (by omega)
  exact hturns m (Nat.le_refl m)

/-- A loop over the rows, each turn of which writes its row. -/
structure Fills (body : (Nat → α) → Nat → Nat → α) (o p m : Nat) (v : Nat → Nat → α) : Prop where
  row : ∀ mem, ∀ q < p, ∀ u < m, body mem q (o + (u + q * m)) = v q u
  rest : ∀ mem, ∀ q < p, ∀ a, (∀ u < m, a ≠ o + (u + q * m)) → body mem q a = mem a

theorem Fills.cell {v : Nat → Nat → α} (h : Fills body o p m v) (mem : Nat → α) {u q : Nat}
    (hu : u < m) (hq : q < p) : (List.range p).foldl body mem (o + (u + q * m)) = v q u := by
  have hturns : ∀ n, q < n → n ≤ p → (List.range n).foldl body mem (o + (u + q * m)) = v q u := by
    intro n
    induction n with
    | zero => exact fun hlt => absurd hlt (Nat.not_lt_zero q)
    | succ n ih =>
      intro hlt hle
      rw [List.range_succ, List.foldl_append, List.foldl_cons, List.foldl_nil]
      rcases Nat.lt_or_ge q n with hqn | hnq
      · rw [h.rest _ n (by omega)]
        · exact ih hqn (by omega)
        · intro v hv
          by_cases huv : u = v
          · subst huv
            exact cell_ne_row (by omega) (by omega)
          · exact cell_ne hu hv huv
      · obtain rfl : q = n := by omega
        exact h.row _ q hq u hu
  exact hturns p hq (Nat.le_refl p)

theorem Fills.other {v : Nat → Nat → α} (h : Fills body o p m v) (mem : Nat → α) {a : Nat}
    (ha : a < o ∨ o + p * m ≤ a) : (List.range p).foldl body mem a = mem a := by
  have hturns : ∀ n ≤ p, (List.range n).foldl body mem a = mem a := by
    intro n
    induction n with
    | zero => exact fun _ => rfl
    | succ n ih =>
      intro hle
      rw [List.range_succ, List.foldl_append, List.foldl_cons, List.foldl_nil,
        h.rest _ n (by omega) a fun u hu => ne_place hu (by omega) ha]
      exact ih (by omega)
  exact hturns p (Nat.le_refl p)

/-- Every place of the rows is in one column and one row. -/
theorem place_eq {p m k : Nat} (hk : k < p * m) :
    k % m < m ∧ k / m < p ∧ k % m + k / m * m = k := by
  have hm : 0 < m := Nat.pos_of_ne_zero fun h => by simp [h] at hk
  refine ⟨Nat.mod_lt k hm, Nat.div_lt_of_lt_mul ?_, Nat.mod_add_div' k m⟩
  rwa [Nat.mul_comm]

end Columns
end SoundScreen
