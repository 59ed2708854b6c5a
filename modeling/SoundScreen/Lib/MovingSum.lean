import Mathlib.Algebra.BigOperators.Group.List.Basic
import Mathlib.Algebra.Order.BigOperators.Group.List
import Mathlib.Data.BitVec
import Mathlib.Tactic.Linarith
import SoundScreen.Lib.Blocks

/-!
# SoundScreen.Lib.MovingSum

Sums over a window that slides along a list, from the running totals of the list, in any
commutative group. Machine integers are such a group, so an overflow of the totals does no harm.

* `cumsum_getElem?`: entry `i` of the running totals is the sum of the first `i + 1` elements.
* `totals_sub`: the differences of totals `w` apart are the sums over the windows of `w`.
* `windowSum_map`: a homomorphism can be taken before or after.
* `wrapped_totals_sub`: the totals taken in machine words differ by the wrapped sums.
* `toInt_ofInt_iff`: a signed word gives back exactly the integers of its range.
* `windowSum_bounds`: bounds of the elements, times the length, bound the sum.
-/

namespace SoundScreen
namespace MovingSum

section Totals

variable {α : Type*} [AddCommGroup α]

/-- The running totals, started from `t`. -/
def cumsumFrom (t : α) : List α → List α
  | [] => []
  | x :: xs => (t + x) :: cumsumFrom (t + x) xs

def cumsum (xs : List α) : List α := cumsumFrom 0 xs

/-- The sum over the window of `w` elements at position `i`. -/
def windowSum (w : Nat) (xs : List α) (i : Nat) : α := ((xs.drop i).take w).sum

theorem cumsumFrom_length (t : α) (xs : List α) : (cumsumFrom t xs).length = xs.length := by
  induction xs generalizing t with
  | nil => rfl
  | cons x xs ih => rw [cumsumFrom, List.length_cons, ih, List.length_cons]

theorem cumsum_length (xs : List α) : (cumsum xs).length = xs.length := cumsumFrom_length 0 xs

theorem cumsumFrom_getElem? (t : α) {xs : List α} {i : Nat} (h : i < xs.length) :
    (cumsumFrom t xs)[i]? = some (t + (xs.take (i + 1)).sum) := by
  induction xs generalizing t i with
  | nil => exact absurd h (Nat.not_lt_zero i)
  | cons x xs ih =>
    cases i with
    | zero =>
      rw [cumsumFrom, List.getElem?_cons_zero, List.take_succ_cons, List.take_zero,
        List.sum_singleton]
    | succ i =>
      rw [List.length_cons] at h
      rw [cumsumFrom, List.getElem?_cons_succ, ih (t + x) (by omega), List.take_succ_cons,
        List.sum_cons, add_assoc]

theorem cumsum_getElem? {xs : List α} {i : Nat} (h : i < xs.length) :
    (cumsum xs)[i]? = some (xs.take (i + 1)).sum := by
  rw [cumsum, cumsumFrom_getElem? 0 h, zero_add]

/-- With a zero in front the totals start before the first element. -/
theorem cumsum_zero_getElem? {xs : List α} {i : Nat} (h : i ≤ xs.length) :
    (cumsum (0 :: xs))[i]? = some (xs.take i).sum := by
  rw [cumsum_getElem? (by rw [List.length_cons]; omega), List.take_succ_cons, List.sum_cons,
    zero_add]

theorem sum_take_sub (xs : List α) (i w : Nat) :
    (xs.take (i + w)).sum - (xs.take i).sum = windowSum w xs i := by
  rw [List.take_add, List.sum_append, add_sub_cancel_left, windowSum]

/-- The totals from `w` on less the totals up to `w` before the end: one entry for each window. -/
theorem totals_sub (xs : List α) (w : Nat) :
    List.zipWith (· - ·) ((cumsum (0 :: xs)).drop w)
      ((cumsum (0 :: xs)).take (xs.length + 1 - w)) =
        (List.range (xs.length + 1 - w)).map (windowSum w xs) := by
  have hlen : (cumsum (0 :: xs)).length = xs.length + 1 := cumsum_length _
  refine List.ext_getElem? ?_
  intro i
  by_cases hi : i < xs.length + 1 - w
  · have hhi : (cumsum (0 :: xs))[i + w]? = some (xs.take (i + w)).sum :=
      cumsum_zero_getElem? (by omega)
    have hlo : (cumsum (0 :: xs))[i]? = some (xs.take i).sum := cumsum_zero_getElem? (by omega)
    rw [List.getElem?_zipWith, List.getElem?_drop, Nat.add_comm w i, hhi,
      List.getElem?_take_of_lt hi, hlo, List.getElem?_map, List.getElem?_range hi]
    exact congrArg some (sum_take_sub xs i w)
  · rw [List.getElem?_eq_none (by rw [List.length_zipWith, List.length_drop, hlen]; omega),
      List.getElem?_eq_none (by rw [List.length_map, List.length_range]; omega)]

theorem windowSum_map {β : Type*} [AddCommGroup β] (f : α →+ β) (w : Nat) (xs : List α) (i : Nat) :
    windowSum w (xs.map f) i = f (windowSum w xs i) := by
  rw [windowSum, windowSum, map_list_sum, List.map_take, List.map_drop]

theorem windowSum_one {xs : List α} {i : Nat} (h : i < xs.length) : windowSum 1 xs i = xs[i] := by
  rw [windowSum, List.drop_eq_getElem_cons h, List.take_succ_cons, List.take_zero,
    List.sum_singleton]

/-- A window inside the first of two lists. -/
theorem windowSum_append_left {w i : Nat} {xs : List α} (ys : List α) (h : i + w ≤ xs.length) :
    windowSum w (xs ++ ys) i = windowSum w xs i := by
  rw [windowSum, windowSum, List.drop_append_of_le_length (by omega),
    List.take_append_of_le_length (by rw [List.length_drop]; omega)]

/-- A window inside one of the pieces, all of length `n`, of a list. -/
theorem windowSum_flatten {w n i c : Nat} {ls : List (List α)} {xs : List α}
    (hls : ∀ l ∈ ls, l.length = n) (hc : ls[c]? = some xs) (h : i + w ≤ n) :
    windowSum w ls.flatten (c * n + i) = windowSum w xs i := by
  obtain ⟨hlt, hget⟩ := List.getElem?_eq_some_iff.mp hc
  have hxs : xs.length = n := hls xs (List.mem_of_getElem? hc)
  have hleft := windowSum_append_left (ls.drop (c + 1)).flatten (hxs.symm ▸ h : i + w ≤ xs.length)
  rw [← hleft, windowSum, windowSum, ← List.drop_drop, Blocks.drop_flatten hls,
    List.drop_eq_getElem_cons hlt, hget, List.flatten_cons]

end Totals

/-! ## Machine words -/

/-- The word of `b` bits of an integer. -/
def word (b : Nat) : Int →+ BitVec b where
  toFun := BitVec.ofInt b
  map_zero' := BitVec.ofInt_ofNat b 0
  map_add' := BitVec.ofInt_add

theorem wrapped_totals_sub (b : Nat) (xs : List Int) (w : Nat) :
    List.zipWith (· - ·) ((cumsum (0 :: xs.map (BitVec.ofInt b))).drop w)
      ((cumsum (0 :: xs.map (BitVec.ofInt b))).take (xs.length + 1 - w)) =
        (List.range (xs.length + 1 - w)).map fun i => BitVec.ofInt b (windowSum w xs i) := by
  have hdiff := totals_sub (xs.map (BitVec.ofInt b)) w
  rw [List.length_map] at hdiff
  rw [hdiff]
  refine List.map_congr_left ?_
  intro i _
  exact windowSum_map (word b) w xs i

theorem toInt_ofInt_iff {b : Nat} (hb : 0 < b) (z : Int) :
    (BitVec.ofInt b z).toInt = z ↔ -2 ^ (b - 1) ≤ z ∧ z < 2 ^ (b - 1) := by
  constructor
  · intro h
    rw [← h]
    exact ⟨BitVec.le_toInt _, BitVec.toInt_lt⟩
  · intro h
    exact BitVec.toInt_ofInt_eq_self hb h.1 h.2

/-! ## Bounds -/

theorem window_length {α : Type*} {w i : Nat} {xs : List α} (h : i + w ≤ xs.length) :
    ((xs.drop i).take w).length = w := by
  rw [List.length_take, List.length_drop]
  omega

/-- Bounds of the elements, times the length of the window, bound its sum. -/
theorem windowSum_bounds {lo hi : Int} {w i : Nat} {xs : List Int}
    (hx : ∀ x ∈ xs, lo ≤ x ∧ x ≤ hi) (h : i + w ≤ xs.length) :
    w * lo ≤ windowSum w xs i ∧ windowSum w xs i ≤ w * hi := by
  have hmem : ∀ x ∈ (xs.drop i).take w, lo ≤ x ∧ x ≤ hi := by
    intro x hx'
    exact hx x (List.mem_of_mem_drop (List.mem_of_mem_take hx'))
  have hlo := List.card_nsmul_le_sum _ lo fun x hx' => (hmem x hx').1
  have hhi := List.sum_le_card_nsmul _ hi fun x hx' => (hmem x hx').2
  rw [window_length h, nsmul_eq_mul] at hlo hhi
  exact ⟨hlo, hhi⟩

end MovingSum
end SoundScreen
