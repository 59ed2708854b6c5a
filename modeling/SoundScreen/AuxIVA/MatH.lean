import Mathlib.Algebra.BigOperators.Fin
import Mathlib.Algebra.Field.Defs
import Mathlib.Data.Matrix.Mul
import SoundScreen.Lib.Loop

/-!
# SoundScreen.AuxIVA.MatH

`AuxIVA/mat.h` with `DEBUG` on: matrices of any dimensions. A member function that changes its
object gives the object's new value. A size check that fails writes a line to `cerr` and returns
one of the operands, and the program goes on with it; a cell outside a matrix is a fault. The
memory behind the cells (`calloc`, `delete[]`) is not modelled.

* `operator_mul_of_sizes`, `operator_add_of_sizes`: the operations on operands that fit.
* `operator_mul_wrong_sizes`: the left operand is returned.
-/

namespace SoundScreen
namespace MatH

/-- `Matrix<T>`. -/
structure Matrix (T : Type) where
  num_rows : Nat
  num_cols : Nat
  data : Fin num_rows → Fin num_cols → T

/-- An access to a cell that is not there. -/
inductive Fault where
  | read (row col : Nat)
  | write (row col : Nat)
  deriving DecidableEq, Repr

/-- A computation with the lines written to `cerr`. -/
abbrev Run := ExceptT Fault (StateM (List String))

/-- The result and the lines on `cerr`. -/
def exec {α : Type} (p : Run α) : Except Fault α × List String := p.run.run []

def cerr (line : String) : Run Unit := modify fun lines => lines ++ [line]

namespace Matrix

variable {T : Type}

/-- `m.data[row][col]`. -/
def cell (m : Matrix T) (row col : Nat) : Run T :=
  if h : row < m.num_rows ∧ col < m.num_cols then
    return m.data ⟨row, h.1⟩ ⟨col, h.2⟩
  else
    throw (.read row col)

/-- `m.data[row][col] = t`. -/
def set_cell (m : Matrix T) (row col : Nat) (t : T) : Run (Matrix T) :=
  if row < m.num_rows ∧ col < m.num_cols then
    return { m with data := fun i j => if i.val = row ∧ j.val = col then t else m.data i j }
  else
    throw (.write row col)

/-- `Matrix(rows, cols)` filled by a loop over `row` and `col`. -/
def fill (rows cols : Nat) (entry : Nat → Nat → Run T) : Run (Matrix T) := do
  let data ← Vector.ofFnM fun row : Fin rows => Vector.ofFnM fun col : Fin cols => entry row col
  return ⟨rows, cols, fun row col => data[row][col]⟩

def get_row (m : Matrix T) (row : Nat) : Run (Matrix T) := do
  if row ≥ m.num_rows then
    cerr s!"ERROR: get_row() index out of bounds: {row}"
    return m
  fill 1 m.num_cols fun _ col => m.cell row col

/-- The object after `set_row`. -/
def set_row (m : Matrix T) (row : Nat) (m' : Matrix T) : Run (Matrix T) := do
  if row ≥ m.num_rows ∨ m'.num_cols ≠ m.num_cols then
    cerr "ERROR: set_row() incorrect bounds"
    return m
  (List.range m.num_cols).foldlM (fun m col => do m.set_cell row col (← m'.cell 0 col)) m

/-- The object after `transpose`. -/
def transpose (m : Matrix T) : Matrix T := ⟨m.num_cols, m.num_rows, fun row col => m.data col row⟩

def operator_add [Add T] (m1 m2 : Matrix T) : Run (Matrix T) := do
  if m1.num_rows ≠ m2.num_rows ∧ m1.num_cols ≠ m2.num_cols then
    cerr "ERROR: operator+(matrix, matrix) wrong sizes"
    return m1
  fill m1.num_rows m1.num_cols fun row col => return (← m1.cell row col) + (← m2.cell row col)

def operator_mul [Zero T] [Add T] [Mul T] (m1 m2 : Matrix T) : Run (Matrix T) := do
  if m1.num_cols ≠ m2.num_rows then
    cerr s!"ERROR: operator*(matrix, matrix) wrong sizes: {m1.num_cols}, {m2.num_rows}"
    return m1
  fill m1.num_rows m2.num_cols fun row col =>
    (List.range m2.num_rows).foldlM
      (fun sum i => return sum + (← m1.cell row i) * (← m2.cell i col)) 0

/-- `m * t` and `t * m`. -/
def scale [Mul T] (t : T) (m : Matrix T) : Matrix T := { m with data := fun i j => m.data i j * t }

/-- `m / t`. -/
def operator_div [Div T] (m : Matrix T) (t : T) : Matrix T :=
  { m with data := fun i j => m.data i j / t }

def determinant [Sub T] [Mul T] (m : Matrix T) : Run T :=
  return (← m.cell 0 0) * (← m.cell 1 1) - (← m.cell 0 1) * (← m.cell 1 0)

def inverse [Zero T] [Neg T] [Sub T] [Mul T] [Div T] (m : Matrix T) : Run (Matrix T) := do
  if m.num_rows ≠ 2 ∧ m.num_cols ≠ 2 then
    cerr s!"ERROR: transpose wrong size: {m.num_rows}x{m.num_cols}"
    return m
  let r : Matrix T := ⟨m.num_rows, m.num_cols, fun _ _ => 0⟩
  let r ← r.set_cell 0 0 (← m.cell 1 1)
  let r ← r.set_cell 0 1 (-(← m.cell 0 1))
  let r ← r.set_cell 1 0 (-(← m.cell 1 0))
  let r ← r.set_cell 1 1 (← m.cell 0 0)
  return r.operator_div (← m.determinant)

/-! ## Operands that fit -/

theorem cell_ok (m : Matrix T) (row : Fin m.num_rows) (col : Fin m.num_cols) :
    m.cell row col = pure (m.data row col) := dif_pos ⟨row.isLt, col.isLt⟩

theorem fill_pure {rows cols : Nat} {entry : Nat → Nat → Run T} {data : Fin rows → Fin cols → T}
    (h : ∀ row col, entry row.val col.val = pure (data row col)) :
    fill rows cols entry = pure ⟨rows, cols, data⟩ := by
  have hrow : ∀ row : Fin rows, (Vector.ofFnM fun col : Fin cols => entry row col) =
      pure (Vector.ofFn (data row)) := by
    intro row
    rw [← Vector.ofFnM_pure]
    exact congrArg _ (funext (h row))
  unfold fill
  simp only [hrow, Vector.ofFnM_pure, pure_bind]
  simp

theorem get_row_ok (m : Matrix T) (row : Fin m.num_rows) :
    m.get_row row = pure ⟨1, m.num_cols, fun _ col => m.data row col⟩ := by
  unfold get_row
  rw [if_neg (by omega)]
  exact fill_pure fun _ col => m.cell_ok row col

/-- Two rows of which the second cannot be read. -/
theorem fill_fault {entry : Nat → Nat → Run T} (row0 : Fin 2 → T) {e : Fault}
    (h₀ : ∀ col : Fin 2, entry 0 col = pure (row0 col)) (h₁ : entry 1 0 = throw e) :
    fill 2 2 entry = throw e := by
  have hfirst : (Vector.ofFnM fun col : Fin 2 => entry 0 col) = pure (Vector.ofFn row0) := by
    rw [← Vector.ofFnM_pure]
    exact congrArg _ (funext h₀)
  have hsecond : (Vector.ofFnM fun col : Fin 2 => entry 1 col) = throw e := by
    rw [Vector.ofFnM_succ']
    exact congrArg (· >>= _) h₁
  have hrows : (Vector.ofFnM fun row : Fin 2 => Vector.ofFnM fun col : Fin 2 => entry row col) =
      throw e := by
    rw [Vector.ofFnM_succ', Fin.val_zero, hfirst, pure_bind, Vector.ofFnM_succ']
    exact congrArg (fun p => (p >>= _) >>= _) hsecond
  unfold fill
  rw [hrows]
  rfl

theorem foldlM_sum [AddCommMonoid T] {n : Nat} {step : T → Nat → Run T} {term : Fin n → T}
    (h : ∀ sum (i : Fin n), step sum i.val = pure (sum + term i)) :
    (List.range n).foldlM step 0 = pure (∑ i, term i) := by
  induction n with
  | zero => rfl
  | succ n ih =>
    have hinit : (List.range n).foldlM step 0 = pure (∑ i : Fin n, term i.castSucc) :=
      ih fun sum i => h sum i.castSucc
    rw [Loop.foldlM_range_succ, hinit, pure_bind, Fin.sum_univ_castSucc]
    exact h _ (Fin.last n)

section Operations

variable [NonUnitalNonAssocSemiring T]

theorem operator_add_of_sizes {m1 m2 : Matrix T} (hr : m1.num_rows = m2.num_rows)
    (hc : m1.num_cols = m2.num_cols) :
    m1.operator_add m2 = pure ⟨m1.num_rows, m1.num_cols, fun row col =>
      m1.data row col + m2.data (row.cast hr) (col.cast hc)⟩ := by
  unfold operator_add
  rw [if_neg (fun h => h.1 hr)]
  refine fill_pure ?_
  intro row col
  have h2 : m2.cell row col = pure (m2.data (row.cast hr) (col.cast hc)) :=
    m2.cell_ok (row.cast hr) (col.cast hc)
  simp only [cell_ok, h2, pure_bind]

theorem operator_mul_of_sizes {m1 m2 : Matrix T} (h : m1.num_cols = m2.num_rows) :
    m1.operator_mul m2 = pure ⟨m1.num_rows, m2.num_cols, fun row col =>
      ∑ i : Fin m2.num_rows, m1.data row (i.cast h.symm) * m2.data i col⟩ := by
  unfold operator_mul
  rw [if_neg (not_not.mpr h)]
  refine fill_pure ?_
  intro row col
  refine foldlM_sum ?_
  intro sum i
  have h1 : m1.cell row i = pure (m1.data row (i.cast h.symm)) := m1.cell_ok row (i.cast h.symm)
  simp only [h1, cell_ok, pure_bind]

/-- The sizes differ in the number of rows only, which the check of `operator+` lets pass. -/
theorem operator_add_fault {m1 m2 : Matrix T} (h1 : m1.num_rows = 2 ∧ m1.num_cols = 2)
    (h2 : m2.num_rows = 1 ∧ m2.num_cols = 2) : m1.operator_add m2 = throw (.read 1 0) := by
  obtain ⟨rows1, cols1, data1⟩ := m1
  obtain ⟨rows2, cols2, data2⟩ := m2
  obtain ⟨rfl, rfl⟩ := h1
  obtain ⟨rfl, rfl⟩ := h2
  unfold operator_add
  rw [if_neg (fun h => h.2 rfl)]
  refine fill_fault (fun col => data1 0 col + data2 0 col) (fun col => ?_) rfl
  have hfirst : (Matrix.mk 2 2 data1).cell 0 col = pure (data1 0 col) :=
    cell_ok ⟨2, 2, data1⟩ 0 col
  have hsecond : (Matrix.mk 1 2 data2).cell 0 col = pure (data2 0 col) :=
    cell_ok ⟨1, 2, data2⟩ 0 col
  simp only [hfirst, hsecond, pure_bind]

theorem operator_mul_wrong_sizes {m1 m2 : Matrix T} (h : m1.num_cols ≠ m2.num_rows) :
    m1.operator_mul m2 = (do
      cerr s!"ERROR: operator*(matrix, matrix) wrong sizes: {m1.num_cols}, {m2.num_rows}"
      return m1) := by
  unfold operator_mul
  rw [if_pos h]

end Operations

end Matrix

end MatH
end SoundScreen
