import Mathlib.Data.List.OfFn
import Mathlib.Tactic.Linarith

/-!
# SoundScreen.Lib.Interleave

Frames of channels in one list. `channel n c xs` is channel `c` of a list in which `n` channels
are interleaved: `xs[c], xs[n + c], xs[2 * n + c], ...`. `interleave xs ys` puts two channels
back into one list.

* `interleave_channel`, `channel_zero_interleave`, `channel_one_interleave`: the two are inverse.
* `channel_append`, `interleave_append`: both respect a cut between two frames.
-/

namespace SoundScreen
namespace Interleave

/-- `0` and `1` are the channels of two. -/
scoped instance neZero_two : NeZero 2 := ⟨Nat.succ_ne_zero 1⟩

variable {α : Type*}

theorem channel_index {n len : Nat} (c : Fin n) (i : Fin (len / n)) : n * i + c < len := by
  have hi : n * (i + 1) ≤ n * (len / n) := Nat.mul_le_mul_left n i.isLt
  have hle := Nat.mul_div_le len n
  have hc := c.isLt
  rw [Nat.mul_add, Nat.mul_one] at hi
  omega

def channel (n : Nat) (c : Fin n) (xs : List α) : List α :=
  List.ofFn fun i : Fin (xs.length / n) => xs.get ⟨n * i + c, channel_index c i⟩

@[simp] theorem channel_length (n : Nat) (c : Fin n) (xs : List α) :
    (channel n c xs).length = xs.length / n := by
  simp [channel]

theorem channel_getElem? {n : Nat} (c : Fin n) {xs : List α} {i : Nat} (h : i < xs.length / n) :
    (channel n c xs)[i]? = xs[n * i + c]? := by
  rw [List.getElem?_eq_getElem (show i < (channel n c xs).length by simpa using h),
    List.getElem?_eq_getElem (channel_index c ⟨i, h⟩)]
  simp [channel]

/-- A list with the samples of channel `c` at its positions is the channel. -/
theorem eq_channel {n : Nat} (c : Fin n) {xs us : List α} (hlen : us.length = xs.length / n)
    (hget : ∀ i, i < us.length → us[i]? = xs[n * i + c]?) : us = channel n c xs := by
  refine List.ext_getElem? ?_
  intro i
  by_cases hi : i < us.length
  · rw [hget i hi, channel_getElem? c (hlen ▸ hi)]
  · rw [List.getElem?_eq_none (by omega), List.getElem?_eq_none (by rw [channel_length]; omega)]

theorem channel_replicate {n : Nat} (c : Fin n) (m : Nat) (x : α) :
    channel n c (List.replicate (m * n) x) = List.replicate m x := by
  refine List.eq_replicate_iff.mpr ⟨?_, ?_⟩
  · rw [channel_length, List.length_replicate, Nat.mul_div_cancel _ c.pos]
  · intro y hy
    obtain ⟨i, rfl⟩ := List.mem_ofFn.mp hy
    exact List.eq_of_mem_replicate (List.getElem_mem _)

theorem channel_append {n : Nat} (c : Fin n) {xs : List α} (ys : List α) (h : n ∣ xs.length) :
    channel n c (xs ++ ys) = channel n c xs ++ channel n c ys := by
  obtain ⟨m, hm⟩ := h
  have hn : 0 < n := c.pos
  have hc := c.isLt
  have hdiv : xs.length / n = m := by rw [hm, Nat.mul_div_cancel_left m hn]
  have hall : (xs ++ ys).length / n = m + ys.length / n := by
    rw [List.length_append, hm, Nat.mul_add_div hn]
  have hlen : (channel n c xs ++ channel n c ys).length = m + ys.length / n := by
    rw [List.length_append, channel_length, channel_length, hdiv]
  refine (eq_channel c (hlen.trans hall.symm) ?_).symm
  intro i hi
  by_cases him : i < m
  · have hx : n * (i + 1) ≤ n * m := Nat.mul_le_mul_left n him
    rw [Nat.mul_add, Nat.mul_one] at hx
    rw [List.getElem?_append_left (by rw [channel_length]; omega), channel_getElem? c (by omega),
      List.getElem?_append_left (by omega)]
  · have hx : n * m ≤ n * i := Nat.mul_le_mul_left n (by omega)
    have hsub : n * i + c - n * m = n * (i - m) + c := by
      rw [Nat.mul_sub]
      omega
    rw [List.getElem?_append_right (by rw [channel_length]; omega), channel_length, hdiv,
      channel_getElem? c (by omega), List.getElem?_append_right (by omega), hm, hsub]

/-- Two channels in one list, frame by frame: `[val for pair in zip(xs, ys) for val in pair]`. -/
def interleave (xs ys : List α) : List α := (xs.zip ys).flatMap fun p => [p.1, p.2]

@[simp] theorem interleave_cons (x y : α) (xs ys : List α) :
    interleave (x :: xs) (y :: ys) = x :: y :: interleave xs ys := rfl

theorem interleave_length {xs ys : List α} (h : xs.length = ys.length) :
    (interleave xs ys).length = 2 * xs.length := by
  induction xs generalizing ys with
  | nil => rfl
  | cons x xs ih =>
    cases ys with
    | nil => cases h
    | cons y ys =>
      simp only [List.length_cons, Nat.add_right_cancel_iff] at h
      simp only [interleave_cons, List.length_cons, ih h]
      omega

theorem interleave_append {xs xs' ys ys' : List α} (h : xs.length = ys.length) :
    interleave (xs ++ xs') (ys ++ ys') = interleave xs ys ++ interleave xs' ys' := by
  rw [interleave, List.zip_append h, List.flatMap_append]
  rfl

/-- Position `2 * i` is channel 0, position `2 * i + 1` is channel 1. -/
theorem interleave_getElem? {xs ys : List α} (h : xs.length = ys.length) (i : Nat) :
    (interleave xs ys)[2 * i]? = xs[i]? ∧ (interleave xs ys)[2 * i + 1]? = ys[i]? := by
  induction xs generalizing ys i with
  | nil =>
    cases ys with
    | nil => exact ⟨rfl, rfl⟩
    | cons y ys => cases h
  | cons x xs ih =>
    cases ys with
    | nil => cases h
    | cons y ys =>
      simp only [List.length_cons, Nat.add_right_cancel_iff] at h
      cases i with
      | zero => exact ⟨rfl, rfl⟩
      | succ i => exact ih h i

/-- A list with the two channels at its even and its odd positions is their interleaving. -/
theorem eq_interleave {xs ys zs : List α} (h : xs.length = ys.length)
    (hlen : zs.length = 2 * xs.length)
    (hget : ∀ i, i < xs.length → zs[2 * i]? = xs[i]? ∧ zs[2 * i + 1]? = ys[i]?) :
    zs = interleave xs ys := by
  refine List.ext_getElem? ?_
  intro p
  by_cases hp : p < 2 * xs.length
  · obtain ⟨h₀, h₁⟩ := hget (p / 2) (by omega)
    obtain ⟨e₀, e₁⟩ := interleave_getElem? h (p / 2)
    rcases Nat.mod_two_eq_zero_or_one p with hmod | hmod
    · rw [show p = 2 * (p / 2) by omega, h₀, e₀]
    · rw [show p = 2 * (p / 2) + 1 by omega, h₁, e₁]
  · rw [List.getElem?_eq_none (by omega),
      List.getElem?_eq_none (by rw [interleave_length h]; omega)]

theorem channel_zero_interleave {xs ys : List α} (h : xs.length = ys.length) :
    channel 2 0 (interleave xs ys) = xs := by
  refine (eq_channel 0 (by rw [interleave_length h]; omega) ?_).symm
  intro i _
  exact (interleave_getElem? h i).1.symm

theorem channel_one_interleave {xs ys : List α} (h : xs.length = ys.length) :
    channel 2 1 (interleave xs ys) = ys := by
  refine (eq_channel 1 (by rw [interleave_length h]; omega) ?_).symm
  intro i _
  exact (interleave_getElem? h i).2.symm

theorem interleave_channel {xs : List α} (h : 2 ∣ xs.length) :
    interleave (channel 2 0 xs) (channel 2 1 xs) = xs := by
  have hdiv := Nat.mul_div_cancel' h
  refine (eq_interleave (by simp) (by rw [channel_length, hdiv]) ?_).symm
  intro i hi
  rw [channel_length] at hi
  exact ⟨(channel_getElem? 0 hi).symm, (channel_getElem? 1 hi).symm⟩

end Interleave
end SoundScreen
