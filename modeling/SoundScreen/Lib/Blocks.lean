import Mathlib.Data.List.Basic

/-!
# SoundScreen.Lib.Blocks

Blocks of one length in one list. Block `i` of blocks of length `n` starts at `i * n`
(`drop_flatten`), and cutting into blocks undoes the concatenation of blocks (`blocks_flatten`).
-/

namespace SoundScreen
namespace Blocks

variable {α : Type*}

/-- The successive whole blocks of length `n`. -/
def blocks (n : Nat) (xs : List α) : List (List α) :=
  (List.range (xs.length / n)).map fun i => (xs.drop (i * n)).take n

theorem flatten_length {n : Nat} {ls : List (List α)} (h : ∀ l ∈ ls, l.length = n) :
    ls.flatten.length = ls.length * n := by
  induction ls with
  | nil => exact (Nat.zero_mul n).symm
  | cons l ls ih =>
    rw [List.flatten_cons, List.length_append, h l List.mem_cons_self,
      ih fun l' hl' => h l' (List.mem_cons_of_mem _ hl'), List.length_cons, Nat.succ_mul,
      Nat.add_comm]

theorem length_flatMap {β : Type*} {n : Nat} {f : β → List α} (h : ∀ b, (f b).length = n)
    (l : List β) : (l.flatMap f).length = l.length * n := by
  have hall : ∀ xs ∈ l.map f, xs.length = n := by
    intro xs hxs
    obtain ⟨b, -, rfl⟩ := List.mem_map.mp hxs
    exact h b
  rw [List.flatMap_def, flatten_length hall, List.length_map]

theorem drop_flatten {n : Nat} {ls : List (List α)} (h : ∀ l ∈ ls, l.length = n) (i : Nat) :
    ls.flatten.drop (i * n) = (ls.drop i).flatten := by
  induction ls generalizing i with
  | nil => rw [List.flatten_nil, List.drop_nil, List.drop_nil, List.flatten_nil]
  | cons l ls ih =>
    cases i with
    | zero => rw [Nat.zero_mul, List.drop_zero, List.drop_zero]
    | succ i =>
      rw [List.flatten_cons, Nat.succ_mul, Nat.add_comm, ← h l List.mem_cons_self,
        List.drop_length_add_append, h l List.mem_cons_self,
        ih fun l' hl' => h l' (List.mem_cons_of_mem _ hl'), List.drop_succ_cons]

theorem blocks_flatten {n : Nat} (hn : 0 < n) {ls : List (List α)} (h : ∀ l ∈ ls, l.length = n) :
    blocks n ls.flatten = ls := by
  have hlen : ls.flatten.length / n = ls.length := by
    rw [flatten_length h, Nat.mul_div_cancel _ hn]
  refine List.ext_getElem? ?_
  intro i
  rw [blocks, hlen, List.getElem?_map]
  by_cases hi : i < ls.length
  · rw [List.getElem?_range hi, Option.map_some, drop_flatten h, List.drop_eq_getElem_cons hi,
      List.flatten_cons, List.take_left' (h _ (List.getElem_mem hi)), List.getElem?_eq_getElem hi]
  · rw [List.getElem?_eq_none (by rw [List.length_range]; omega),
      List.getElem?_eq_none (by omega), Option.map_none]

end Blocks
end SoundScreen
