import Mathlib.Algebra.BigOperators.Group.List.Basic
import Mathlib.Tactic.LinearCombination
import Mathlib.Tactic.Ring

/-!
# SoundScreen.Lib.Lfilter

A linear filter as a difference equation, in exact arithmetic over a commutative ring:
`y[n] = b[0] x[n] + b[1] x[n-1] + ... - a[1] y[n-1] - a[2] y[n-2] - ...`, `a[0] = 1`.

`lfilterFrom` starts from given past inputs and outputs, newest first; `lfilter` starts from
rest. A filter carries state across a cut of the input unless it is memoryless:

* `lfilter_append`: the second part is filtered from the state the first part left.
* `lfilter_cut_iff`: filtering the two parts separately is the same for every input and every
  cut exactly when `b[i] = b[0] * a[i]` for every `i`; `memoryless_of_impulse`: one cut impulse
  is enough to tell.
-/

namespace SoundScreen
namespace Lfilter

variable {K : Type*} [CommRing K]

/-- Numerator `b` and denominator `1, a[1], a[2], ...`; `a` is the tail. -/
structure Coeffs (K : Type*) where
  b : List K
  a : List K

def dot : List K → List K → K
  | c :: cs, h :: hs => c * h + dot cs hs
  | _, _ => 0

def output (c : Coeffs K) (xs ys : List K) : K := dot c.b xs - dot c.a ys

def lfilterFrom (c : Coeffs K) (pastIn pastOut : List K) : List K → List K
  | [] => []
  | x :: xs =>
    let y := output c (x :: pastIn) pastOut
    y :: lfilterFrom c (x :: pastIn) (y :: pastOut) xs

def lfilter (c : Coeffs K) (xs : List K) : List K := lfilterFrom c [] [] xs

@[simp] theorem dot_nil (cs : List K) : dot cs [] = 0 := by cases cs <;> rfl

@[simp] theorem lfilterFrom_length (c : Coeffs K) (px py xs : List K) :
    (lfilterFrom c px py xs).length = xs.length := by
  induction xs generalizing px py with
  | nil => rfl
  | cons x xs ih => simp [lfilterFrom, ih]

@[simp] theorem lfilter_length (c : Coeffs K) (xs : List K) :
    (lfilter c xs).length = xs.length := lfilterFrom_length c [] [] xs

theorem lfilterFrom_append (c : Coeffs K) (px py xs ys : List K) :
    lfilterFrom c px py (xs ++ ys) = lfilterFrom c px py xs ++
      lfilterFrom c (xs.reverse ++ px) ((lfilterFrom c px py xs).reverse ++ py) ys := by
  induction xs generalizing px py with
  | nil => rfl
  | cons x xs ih => simp [lfilterFrom, ih]

/-- The second part is filtered from the state the first part left. -/
theorem lfilter_append (c : Coeffs K) (xs ys : List K) :
    lfilter c (xs ++ ys) =
      lfilter c xs ++ lfilterFrom c xs.reverse (lfilter c xs).reverse ys := by
  rw [lfilter, lfilterFrom_append, List.append_nil, List.append_nil]
  rfl

/-! ## Memoryless filters -/

/-- `b = b[0] * a`: the transfer function is the constant `b[0]`. -/
def Memoryless (c : Coeffs K) : Prop :=
  ∀ i, c.b.getD (i + 1) 0 = c.b.getD 0 0 * c.a.getD i 0

theorem dot_cons (cs : List K) (x : K) (hs : List K) :
    dot cs (x :: hs) = cs.getD 0 0 * x + dot cs.tail hs := by
  cases cs <;> simp [dot]

theorem getD_tail (xs : List K) (i : Nat) : xs.tail.getD i 0 = xs.getD (i + 1) 0 := by
  cases xs <;> simp

theorem dot_scale (g : K) (bs cs : List K) (h : ∀ i, bs.getD i 0 = g * cs.getD i 0)
    (hs : List K) : dot bs hs = g * dot cs hs := by
  induction hs generalizing bs cs with
  | nil => simp
  | cons x hs ih =>
    have htail := ih bs.tail cs.tail fun i => by rw [getD_tail, getD_tail, h]
    rw [dot_cons, dot_cons, htail, h 0]
    ring

theorem dot_smul (g : K) (cs hs : List K) : dot cs (hs.map (g * ·)) = g * dot cs hs := by
  induction cs generalizing hs with
  | nil => cases hs <;> simp [dot]
  | cons c cs ih =>
    cases hs with
    | nil => simp
    | cons x hs =>
      simp only [List.map_cons, dot, ih]
      ring

/-- A memoryless filter scales by `b[0]`, whatever came before. -/
theorem lfilterFrom_memoryless {c : Coeffs K} (h : Memoryless c) (px xs : List K) :
    lfilterFrom c px (px.map (c.b.getD 0 0 * ·)) xs = xs.map (c.b.getD 0 0 * ·) := by
  induction xs generalizing px with
  | nil => rfl
  | cons x xs ih =>
    have htail : dot c.b.tail px = c.b.getD 0 0 * dot c.a px :=
      dot_scale _ _ _ (fun i => by rw [getD_tail, h i]) px
    have hy : output c (x :: px) (px.map (c.b.getD 0 0 * ·)) = c.b.getD 0 0 * x := by
      rw [output, dot_cons, htail, dot_smul]
      ring
    have := ih (x :: px)
    simp only [List.map_cons] at this
    simp only [lfilterFrom, hy, this, List.map_cons]

theorem lfilter_memoryless {c : Coeffs K} (h : Memoryless c) (xs : List K) :
    lfilter c xs = xs.map (c.b.getD 0 0 * ·) := lfilterFrom_memoryless h [] xs

theorem dot_impulse (cs : List K) (n : Nat) (v : K) :
    dot cs (List.replicate n 0 ++ [v]) = cs.getD n 0 * v := by
  induction n generalizing cs with
  | zero => simp [dot_cons]
  | succ n ih =>
    rw [List.replicate_succ, List.cons_append, dot_cons, ih]
    cases cs <;> simp

theorem dot_zeros (cs : List K) (n : Nat) : dot cs (List.replicate n 0) = 0 := by
  induction n generalizing cs with
  | zero => simp
  | succ n ih => rw [List.replicate_succ, dot_cons, ih, mul_zero, add_zero]

/-- From rest, silence gives silence. -/
theorem lfilterFrom_zeros (c : Coeffs K) (m n : Nat) :
    lfilterFrom c (List.replicate m 0) (List.replicate m 0) (List.replicate n 0) =
      List.replicate n 0 := by
  induction n generalizing m with
  | zero => rfl
  | succ n ih =>
    have hy : output c (List.replicate (m + 1) 0) (List.replicate m 0) = 0 := by
      rw [output, dot_zeros, dot_zeros, sub_zero]
    have := ih (m + 1)
    simp only [List.replicate_succ] at this hy
    simp only [List.replicate_succ, lfilterFrom, hy, this]

/-- If nothing follows an impulse, each later coefficient of `b` is the matching one of `a`. -/
theorem coeff_of_silent_tail {c : Coeffs K} {g : K} {m n : Nat}
    (h : lfilterFrom c (List.replicate m 0 ++ [1]) (List.replicate m 0 ++ [g])
      (List.replicate n 0) = List.replicate n 0) :
    ∀ i < n, c.b.getD (m + i + 1) 0 = g * c.a.getD (m + i) 0 := by
  induction n generalizing m with
  | zero => intro i hi; omega
  | succ n ih =>
    simp only [List.replicate_succ, lfilterFrom, List.cons.injEq] at h
    obtain ⟨hy, ht⟩ := h
    have hb := dot_impulse c.b (m + 1) 1
    have ha := dot_impulse c.a m g
    simp only [List.replicate_succ, List.cons_append] at hb
    have hm : c.b.getD (m + 1) 0 = g * c.a.getD m 0 := by
      rw [output, hb, ha] at hy
      linear_combination hy
    rw [hy] at ht
    have hrest := ih (m := m + 1) (by simpa only [List.replicate_succ, List.cons_append] using ht)
    intro i hi
    cases i with
    | zero => exact hm
    | succ i =>
      have := hrest i (by omega)
      rwa [show m + 1 + i = m + (i + 1) by omega] at this

/-- An impulse cut off from the silence after it shows every coefficient. -/
theorem memoryless_of_impulse {c : Coeffs K}
    (h : ∀ n, lfilter c ([1] ++ List.replicate n 0) =
      lfilter c [1] ++ lfilter c (List.replicate n 0)) : Memoryless c := by
  intro i
  have hcut := h (i + 1)
  have hfirst : lfilter c [1] = [c.b.getD 0 0] := by
    simp [lfilter, lfilterFrom, output, dot_cons]
  have hrest : lfilter c (List.replicate (i + 1) 0) = List.replicate (i + 1) 0 :=
    lfilterFrom_zeros c 0 (i + 1)
  rw [lfilter_append, hfirst, hrest, List.append_cancel_left_eq] at hcut
  have := coeff_of_silent_tail (m := 0) hcut i (by omega)
  simpa only [Nat.zero_add] using this

/-- A cut of the input goes unnoticed for every input exactly when the filter is memoryless. -/
theorem lfilter_cut_iff (c : Coeffs K) :
    (∀ xs ys, lfilter c (xs ++ ys) = lfilter c xs ++ lfilter c ys) ↔ Memoryless c := by
  constructor
  · intro h
    exact memoryless_of_impulse fun n => h [1] (List.replicate n 0)
  · intro h xs ys
    rw [lfilter_memoryless h, lfilter_memoryless h, lfilter_memoryless h, List.map_append]

end Lfilter
end SoundScreen
