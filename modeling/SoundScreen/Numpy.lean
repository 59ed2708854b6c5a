import Mathlib.Data.Int.ConditionallyCompleteOrder
import Mathlib.Data.Rat.Floor
import SoundScreen.Lib.Array3
import SoundScreen.Lib.Blocks
import SoundScreen.Lib.Interleave
import SoundScreen.Sample

/-!
# SoundScreen.Numpy

The part of Python and NumPy the programs use: exceptions, two-dimensional arrays with their two
memory orders, three-dimensional arrays with an unknown axis, indexing, conversion to `int32`.

A two-dimensional array is its shape and its elements by index; a reshape is the index map of its
order. Element `(i, j)` of shape `(rows, cols)` is element `i * cols + j` of the buffer in C order
and element `i + rows * j` in Fortran order.
-/

namespace SoundScreen

inductive PyError where
  | ValueError (msg : String)
  | IndexError (msg : String)
  | AssertionError
  | UnboundLocalError (msg : String)
  | FloatingPointError (msg : String)
  | ZeroDivisionError (msg : String)
  | OverflowError (msg : String)
  deriving DecidableEq, Repr

/-- A row of samples to a row of the same length: what `butter`, `lfilter` and `astype` do to
each row of a two-dimensional array. -/
structure RowFilter where
  run : List SAMPLE → List SAMPLE
  length_run : ∀ xs, (run xs).length = xs.length

namespace RowFilter

attribute [simp] length_run

def id : RowFilter := ⟨fun xs => xs, fun _ => rfl⟩

@[simp] theorem id_run (xs : List SAMPLE) : id.run xs = xs := rfl

end RowFilter

structure Mat (α : Type) where
  rows : Nat
  cols : Nat
  get : Fin rows → Fin cols → α

namespace Mat

variable {α : Type}

theorem c_index {rows cols : Nat} (i : Fin rows) (j : Fin cols) :
    i.val * cols + j.val < rows * cols := by
  have h : (i.val + 1) * cols ≤ rows * cols := Nat.mul_le_mul_right cols i.isLt
  have := j.isLt
  rw [Nat.add_mul, Nat.one_mul] at h
  omega

theorem f_index {rows cols : Nat} (i : Fin rows) (j : Fin cols) :
    i.val + rows * j.val < rows * cols := by
  have h : rows * (j.val + 1) ≤ rows * cols := Nat.mul_le_mul_left rows j.isLt
  have := i.isLt
  rw [Nat.mul_add, Nat.mul_one] at h
  omega

/-- NumPy's text for a shape that does not have the number of elements. -/
def shapeError (size rows cols : Nat) : PyError :=
  .ValueError s!"cannot reshape array of size {size} into shape ({rows},{cols})"

/-- `xs.shape = (rows, cols)`, and `reshape((rows, cols))` in C order. -/
def reshape (xs : List α) (rows cols : Nat) : Except PyError (Mat α) :=
  if h : xs.length = rows * cols then
    .ok ⟨rows, cols, fun i j => xs.get ⟨i.val * cols + j.val, h ▸ c_index i j⟩⟩
  else .error (shapeError xs.length rows cols)

/-- `reshape((rows, cols), order='F')`. -/
def reshapeF (xs : List α) (rows cols : Nat) : Except PyError (Mat α) :=
  if h : xs.length = rows * cols then
    .ok ⟨rows, cols, fun i j => xs.get ⟨i.val + rows * j.val, h ▸ f_index i j⟩⟩
  else .error (shapeError xs.length rows cols)

/-- `m.T`. -/
def T (m : Mat α) : Mat α := ⟨m.cols, m.rows, fun j i => m.get i j⟩

/-- `m[r]` as a list. -/
def row (m : Mat α) (r : Fin m.rows) : List α := List.ofFn (m.get r)

/-- The rows, in order. -/
def toRows (m : Mat α) : List (List α) := List.ofFn m.row

/-- The elements in one list, row after row: `ravel` in C order. -/
def ravel (m : Mat α) : List α := m.toRows.flatten

theorem length_of_mem_toRows (m : Mat α) : ∀ l ∈ m.toRows, l.length = m.cols := by
  intro l hl
  obtain ⟨r, rfl⟩ := List.mem_ofFn.mp hl
  exact List.length_ofFn

theorem ravel_length (m : Mat α) : m.ravel.length = m.rows * m.cols := by
  rw [ravel, Blocks.flatten_length m.length_of_mem_toRows, toRows, List.length_ofFn]

theorem ravel_getElem (m : Mat α) (i : Fin m.rows) (j : Fin m.cols)
    (h : i.val * m.cols + j.val < m.ravel.length) :
    m.ravel[i.val * m.cols + j.val] = m.get i j := by
  have hdrop : m.ravel.drop (i.val * m.cols) = (m.toRows.drop i.val).flatten :=
    Blocks.drop_flatten m.length_of_mem_toRows i.val
  have hi : i.val < m.toRows.length := by
    rw [toRows, List.length_ofFn]
    exact i.isLt
  have hj : j.val < (m.row i).length := by
    rw [row, List.length_ofFn]
    exact j.isLt
  have hrow : m.toRows[i.val] = m.row i := List.getElem_ofFn _
  rw [← Option.some.injEq, ← List.getElem?_eq_getElem h, ← List.getElem?_drop, hdrop,
    List.drop_eq_getElem_cons hi, List.flatten_cons, hrow, List.getElem?_append_left hj,
    List.getElem?_eq_getElem hj]
  exact congrArg some (List.getElem_ofFn _)

theorem reshape_ravel (m : Mat α) : reshape m.ravel m.rows m.cols = .ok m := by
  rw [reshape, dif_pos m.ravel_length]
  refine congrArg Except.ok (congrArg (Mat.mk m.rows m.cols) ?_)
  funext i j
  exact m.ravel_getElem i j (m.ravel_length ▸ c_index i j)

theorem reshape_error_iff {xs : List α} {rows cols : Nat} :
    (∃ e, reshape xs rows cols = .error e) ↔ xs.length ≠ rows * cols := by
  unfold reshape
  by_cases h : xs.length = rows * cols
  · rw [dif_pos h]
    refine iff_of_false ?_ (not_not.mpr h)
    rintro ⟨e, he⟩
    cases he
  · rw [dif_neg h]
    exact iff_of_true ⟨_, rfl⟩ h

/-- Column `c` of the frames of a buffer is channel `c` of the buffer. -/
theorem column_eq_channel {xs : List α} {n frames : Nat} (h : xs.length = frames * n)
    (c : Fin n) :
    (List.ofFn fun i : Fin frames => xs.get ⟨i.val * n + c.val, h ▸ c_index i c⟩) =
      Interleave.channel n c xs := by
  have hdiv : xs.length / n = frames := by rw [h, Nat.mul_div_cancel _ c.pos]
  refine Interleave.eq_channel c (by rw [List.length_ofFn, hdiv]) ?_
  intro i hi
  rw [List.length_ofFn] at hi
  have hx : i * n + c < xs.length := h ▸ c_index ⟨i, hi⟩ c
  rw [List.getElem?_ofFn, dif_pos hi, Nat.mul_comm n, List.getElem?_eq_getElem hx]
  rfl

/-- The buffer of `n` interleaved channels, reshaped to frames and transposed, has the channels
as its rows. -/
theorem reshape_T_toRows {xs : List α} {n frames : Nat} (h : xs.length = frames * n) {m : Mat α}
    (hm : reshape xs frames n = .ok m) :
    m.T.toRows = List.ofFn fun c : Fin n => Interleave.channel n c xs := by
  rw [reshape, dif_pos h] at hm
  cases hm
  exact congrArg List.ofFn (funext fun c => column_eq_channel h c)

end Mat

/-! ## Arrays of three axes -/

namespace Array3

variable {α β : Type}

theorem first_axis {n d1 d2 : Nat} (h : d1 * d2 ∣ n) : n = n / (d1 * d2) * d1 * d2 := by
  rw [Nat.mul_assoc, Nat.div_mul_cancel h]

theorem middle_axis {n d0 d2 : Nat} (h : d0 * d2 ∣ n) : n = d0 * (n / (d0 * d2)) * d2 := by
  rw [Nat.mul_right_comm, Nat.mul_div_cancel' h]

/-- `np.reshape(a, (-1, d1, d2))`. -/
def reshapeFirst (a : Array3 α) (d1 d2 : Nat) : Except PyError (Array3 α) :=
  if h : 0 < d1 * d2 ∧ d1 * d2 ∣ a.d0 * a.d1 * a.d2 then
    .ok (a.reshape (a.d0 * a.d1 * a.d2 / (d1 * d2)) d1 d2 (first_axis h.2))
  else
    .error (.ValueError
      s!"cannot reshape array of size {a.d0 * a.d1 * a.d2} into shape ({d1},{d2})")

/-- `np.reshape(a, (d0, -1, d2))`. -/
def reshapeMiddle (a : Array3 α) (d0 d2 : Nat) : Except PyError (Array3 α) :=
  if h : 0 < d0 * d2 ∧ d0 * d2 ∣ a.d0 * a.d1 * a.d2 then
    .ok (a.reshape d0 (a.d0 * a.d1 * a.d2 / (d0 * d2)) d2 (middle_axis h.2))
  else
    .error (.ValueError
      s!"cannot reshape array of size {a.d0 * a.d1 * a.d2} into shape ({d0},newaxis,{d2})")

/-- The operands of an elementwise operation, or NumPy's error for shapes that do not fit. -/
def broadcast (a : Array3 α) (b : Array3 β) : Except PyError (Array3 (α × β)) :=
  match a.zip b with
  | some c => .ok c
  | none => .error (.ValueError (s!"operands could not be broadcast together with shapes " ++
      s!"({a.d0},{a.d1},{a.d2}) ({b.d0},{b.d1},{b.d2}) "))

/-- `a / b` in exact arithmetic: NumPy's complaint if one of the divisors is zero. -/
def divide [Div α] [Zero α] [DecidableEq α] (a b : Array3 α) : Except PyError (Array3 α) := do
  let c ← a.broadcast b
  if c.data.all fun p => p.2 ≠ 0 then
    return c.map fun p => p.1 / p.2
  else
    .error (.FloatingPointError "divide by zero encountered in true_divide")

/-- `a * b`. -/
def multiply [Mul α] (a b : Array3 α) : Except PyError (Array3 α) := do
  let c ← a.broadcast b
  return c.map fun p => p.1 * p.2

/-- `np.all(np.equal(a, b))`. -/
def allEqual [DecidableEq α] (a b : Array3 α) : Except PyError Bool := do
  let c ← a.broadcast b
  return c.data.all fun p => p.1 = p.2

theorem reshapeFirst_ok {a : Array3 α} {n d1 d2 : Nat} (h : a.d0 * a.d1 * a.d2 = n * d1 * d2)
    (h0 : 0 < d1 * d2) : a.reshapeFirst d1 d2 = .ok (a.reshape n d1 d2 h) := by
  have hmul : a.d0 * a.d1 * a.d2 = n * (d1 * d2) := by rw [h, Nat.mul_assoc]
  have hdiv : a.d0 * a.d1 * a.d2 / (d1 * d2) = n := by rw [hmul, Nat.mul_div_cancel n h0]
  rw [reshapeFirst, dif_pos ⟨h0, Dvd.intro_left n hmul.symm⟩]
  simp only [reshape, hdiv]

theorem reshapeMiddle_ok {a : Array3 α} {d0 n d2 : Nat} (h : a.d0 * a.d1 * a.d2 = d0 * n * d2)
    (h0 : 0 < d0 * d2) : a.reshapeMiddle d0 d2 = .ok (a.reshape d0 n d2 h) := by
  have hmul : a.d0 * a.d1 * a.d2 = n * (d0 * d2) := by rw [h]; ring
  have hdiv : a.d0 * a.d1 * a.d2 / (d0 * d2) = n := by rw [hmul, Nat.mul_div_cancel n h0]
  rw [reshapeMiddle, dif_pos ⟨h0, Dvd.intro_left n hmul.symm⟩]
  simp only [reshape, hdiv]

section OfFn

variable {d0 d1 d2 : Nat}

theorem broadcast_ofFn (f : Fin d0 → Fin d1 → Fin d2 → α) (g : Fin d0 → Fin d1 → Fin d2 → β) :
    (ofFn d0 d1 d2 f).broadcast (ofFn d0 d1 d2 g) =
      .ok (ofFn d0 d1 d2 fun i j k => (f i j k, g i j k)) := by
  rw [broadcast, zip_ofFn]

theorem divide_ofFn [Div α] [Zero α] [DecidableEq α] (f : Fin d0 → Fin d1 → Fin d2 → α)
    {g : Fin d0 → Fin d1 → Fin d2 → α} (h : ∀ i j k, g i j k ≠ 0) :
    (ofFn d0 d1 d2 f).divide (ofFn d0 d1 d2 g) =
      .ok (ofFn d0 d1 d2 fun i j k => f i j k / g i j k) := by
  have hall : ((ofFn d0 d1 d2 fun i j k => (f i j k, g i j k)).data.all fun p => p.2 ≠ 0) =
      true := by
    rw [List.all_eq_true]
    intro p hp
    obtain ⟨i, j, k, rfl⟩ := (mem_ofFn _).mp hp
    exact decide_eq_true (h i j k)
  simp only [divide, broadcast_ofFn, bind, Except.bind, hall, if_true, map_ofFn]
  rfl

theorem multiply_ofFn [Mul α] (f g : Fin d0 → Fin d1 → Fin d2 → α) :
    (ofFn d0 d1 d2 f).multiply (ofFn d0 d1 d2 g) =
      .ok (ofFn d0 d1 d2 fun i j k => f i j k * g i j k) := by
  simp only [multiply, broadcast_ofFn, bind, Except.bind, map_ofFn]
  rfl

theorem allEqual_self [DecidableEq α] (a : Array3 α) : a.allEqual a = .ok true := by
  obtain ⟨f, hf⟩ := exists_ofFn (a := a) rfl
  have hall : ((ofFn a.d0 a.d1 a.d2 fun i j k => (f i j k, f i j k)).data.all
      fun p => p.1 = p.2) = true := by
    rw [List.all_eq_true]
    intro p hp
    obtain ⟨i, j, k, rfl⟩ := (mem_ofFn _).mp hp
    exact decide_eq_true rfl
  rw [hf]
  simp only [allEqual, broadcast_ofFn, bind, Except.bind, hall]
  rfl

end OfFn

end Array3

/-! ## Indexing the first axis -/

/-- `xs[i]`; a negative index counts from the end. -/
def pyIndex {α : Type} (xs : List α) (i : Int) : Except PyError α :=
  match if i < 0 then xs.reverse[(-i - 1).toNat]? else xs[i.toNat]? with
  | some x => .ok x
  | none => .error (.IndexError
      s!"index {i} is out of bounds for axis 0 with size {xs.length}")

theorem pyIndex_natCast {α : Type} {xs : List α} {i : Nat} {x : α} (h : xs[i]? = some x) :
    pyIndex xs i = .ok x := by
  rw [pyIndex, if_neg (by omega), Int.toNat_natCast, h]

theorem pyIndex_neg {α : Type} {xs : List α} {i : Nat} {x : α} (h₀ : 0 < i)
    (hi : i ≤ xs.length) (h : xs[xs.length - i]? = some x) : pyIndex xs (-i) = .ok x := by
  have he : (-(-(i : Int)) - 1).toNat = i - 1 := by omega
  have hj : xs.length - 1 - (i - 1) = xs.length - i := by omega
  rw [pyIndex, if_pos (by omega), he, List.getElem?_reverse (by omega), hj, h]

/-! ## Arrays of one axis -/

/-- `xs[:-w]`; `-0` is `0`. -/
def takeTo {α : Type} (xs : List α) (w : Nat) : List α :=
  if w = 0 then [] else xs.take (xs.length - w)

/-- An axis of length 1 is repeated to fit the other operand. -/
def stretch {α : Type} (n : Nat) (xs : List α) : List α :=
  if xs.length = 1 then xs.flatMap (List.replicate n) else xs

/-- `xs - ys`. -/
def subtract {α : Type} [Sub α] (xs ys : List α) : Except PyError (List α) :=
  if xs.length = ys.length then
    .ok (List.zipWith (· - ·) xs ys)
  else if xs.length = 1 ∨ ys.length = 1 then
    .ok (List.zipWith (· - ·) (stretch ys.length xs) (stretch xs.length ys))
  else
    .error (.ValueError (s!"operands could not be broadcast together with shapes " ++
      s!"({xs.length},) ({ys.length},) "))

theorem takeTo_of_pos {α : Type} (xs : List α) {w : Nat} (h : 0 < w) :
    takeTo xs w = xs.take (xs.length - w) := if_neg (by omega)

theorem subtract_of_length {α : Type} [Sub α] {xs ys : List α} (h : xs.length = ys.length) :
    subtract xs ys = .ok (List.zipWith (· - ·) xs ys) := if_pos h

/-! ## Element types -/

/-- The types of the samples of WAV files. -/
inductive DType where
  | uint8
  | int16
  deriving DecidableEq, Repr

namespace DType

abbrev Elem : DType → Type
  | uint8 => UInt8
  | int16 => Int16

def itemsize : DType → Nat
  | uint8 => 1
  | int16 => 2

def value : (d : DType) → d.Elem → Int
  | uint8, x => x.toNat
  | int16, x => x.toInt

/-- Conversion of an integer to the type. -/
def ofInt : (d : DType) → Int → d.Elem
  | uint8, z => UInt8.ofInt z
  | int16, z => Int16.ofInt z

/-- The value of a word of the integer type, signed or not, that NumPy sums elements in. -/
def total {b : Nat} : DType → BitVec b → Int
  | uint8, v => v.toNat
  | int16, v => v.toInt

end DType

/-! ## Conversion to integers -/

/-- Conversion of a rational to `int`: truncation toward zero. -/
def truncate (q : ℚ) : Int := q.num.tdiv q.den

/-- Conversion of a rational to `np.int32`. -/
def int32OfRat (q : ℚ) : SAMPLE := Int32.ofInt (truncate q)

@[simp] theorem truncate_intCast (n : Int) : truncate n = n := by simp [truncate]

theorem truncate_neg (q : ℚ) : truncate (-q) = -truncate q := by
  simp [truncate, Int.neg_tdiv]

theorem truncate_of_nonneg {q : ℚ} (h : 0 ≤ q) : truncate q = ⌊q⌋ := by
  rw [truncate, Int.tdiv_eq_ediv_of_nonneg (Rat.num_nonneg.mpr h), Rat.floor_def']

theorem truncate_nonneg {q : ℚ} (h : 0 ≤ q) : 0 ≤ truncate q := by
  rw [truncate_of_nonneg h]
  exact Int.floor_nonneg.mpr h

theorem truncate_mono : Monotone truncate := by
  intro p q hpq
  rcases le_total 0 p with hp | hp
  · rw [truncate_of_nonneg hp, truncate_of_nonneg (hp.trans hpq)]
    exact Int.floor_mono hpq
  have hp' : truncate p = -⌊-p⌋ := by
    rw [← truncate_of_nonneg (neg_nonneg.mpr hp), truncate_neg, neg_neg]
  rcases le_total 0 q with hq | hq
  · have := Int.floor_nonneg.mpr (neg_nonneg.mpr hp)
    have := truncate_nonneg hq
    omega
  · have hq' : truncate q = -⌊-q⌋ := by
      rw [← truncate_of_nonneg (neg_nonneg.mpr hq), truncate_neg, neg_neg]
    rw [hp', hq']
    exact neg_le_neg (Int.floor_mono (neg_le_neg hpq))

/-- A value between two integers of opposite sign stays between them. -/
theorem truncate_bounds {q : ℚ} {n : Int} (hn : 0 < n) (hlo : -(n : ℚ) < q) (hhi : q < n) :
    -n < truncate q ∧ truncate q < n := by
  rcases le_total 0 q with hq | hq
  · have hfloor : ⌊q⌋ < n := Int.floor_lt.mpr hhi
    have hnonneg := truncate_nonneg hq
    rw [truncate_of_nonneg hq] at hnonneg ⊢
    omega
  · have hfloor : ⌊-q⌋ < n := Int.floor_lt.mpr (by linarith)
    have hneg : truncate q = -⌊-q⌋ := by
      rw [← truncate_of_nonneg (neg_nonneg.mpr hq), truncate_neg, neg_neg]
    have hnonneg := Int.floor_nonneg.mpr (neg_nonneg.mpr hq)
    omega

/-- A value between two samples is a sample after truncation: the conversion does not wrap. -/
theorem toInt_int32OfRat {q : ℚ} {a b : SAMPLE} (ha : (a.toInt : ℚ) ≤ q)
    (hb : q ≤ (b.toInt : ℚ)) : (int32OfRat q).toInt = truncate q := by
  have h₁ := truncate_mono ha
  have h₂ := truncate_mono hb
  rw [truncate_intCast] at h₁ h₂
  have := a.le_toInt
  have := b.toInt_lt
  exact Int32.toInt_ofInt_of_le (by omega) (by omega)

@[simp] theorem int32OfRat_toInt (a : SAMPLE) : int32OfRat a.toInt = a := by
  rw [int32OfRat, truncate_intCast, Int32.ofInt_toInt]

end SoundScreen
