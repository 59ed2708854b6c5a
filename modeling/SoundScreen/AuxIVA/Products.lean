import Mathlib.Data.BitVec
import SoundScreen.AuxIVA.Objects

/-!
# SoundScreen.AuxIVA.Products

The laws of the products and the transposes of `mat.h`, over any commutative ring: the integers,
and the machine words of any width.

* `transpose_loops_eq`: the loops of `transpose` give the transposed matrix, whatever the shape.
* `operator_mul_assign_eq`: `*=` is `*`, also where the operand is the object itself.
* `product_laws`: the laws together.
-/

namespace SoundScreen
namespace MatH

variable {T : Type}

/-- The loops of `transpose`, into a matrix of zeros. -/
def Matrix.transpose_loops [Zero T] (m : Matrix T) : Run (Matrix T) :=
  (List.range m.num_rows).foldlM (fun r row =>
    (List.range m.num_cols).foldlM (fun r col => do r.set_cell col row (← m.cell row col)) r)
    ⟨m.num_cols, m.num_rows, fun _ _ => 0⟩

section Transpose

variable [Zero T] (m : Matrix T)

/-- After the rows below `row`, and the columns below `col` of row `row`. -/
def transposed (row col : Nat) : Matrix T :=
  ⟨m.num_cols, m.num_rows, fun i j =>
    if j.val < row ∨ j.val = row ∧ i.val < col then m.data j i else 0⟩

theorem transposed_succ {row col : Nat} (hr : row < m.num_rows) (hc : col < m.num_cols) :
    (transposed m row col).set_cell col row (m.data ⟨row, hr⟩ ⟨col, hc⟩) =
      pure (transposed m row (col + 1)) := by
  have hin : col < (transposed m row col).num_rows ∧ row < (transposed m row col).num_cols :=
    ⟨hc, hr⟩
  unfold Matrix.set_cell
  rw [if_pos hin]
  refine congrArg pure (congrArg (Matrix.mk m.num_cols m.num_rows) ?_)
  funext (i : Fin m.num_cols) (j : Fin m.num_rows)
  by_cases hij : i.val = col ∧ j.val = row
  · obtain ⟨rfl, rfl⟩ := hij
    simp
  · have hiff : (j.val < row ∨ j.val = row ∧ i.val < col) ↔
        j.val < row ∨ j.val = row ∧ i.val < col + 1 := by omega
    simp only [transposed, hij, if_false, hiff]

theorem transpose_row {row : Nat} (hr : row < m.num_rows) :
    (List.range m.num_cols).foldlM (fun r col => do r.set_cell col row (← m.cell row col))
      (transposed m row 0) = pure (transposed m (row + 1) 0) := by
  have hcols : (List.range m.num_cols).foldlM
      (fun r col => do r.set_cell col row (← m.cell row col)) (transposed m row 0) =
        pure (transposed m row m.num_cols) := by
    refine Loop.foldlM_range_eq (transposed m row) ?_
    intro col hc
    rw [Matrix.cell_of_lt hr hc, pure_bind, transposed_succ m hr hc]
  rw [hcols]
  refine congrArg pure (congrArg (Matrix.mk m.num_cols m.num_rows) ?_)
  funext i j
  have hi := i.isLt
  have hiff : (j.val < row ∨ j.val = row ∧ i.val < m.num_cols) ↔
      j.val < row + 1 ∨ j.val = row + 1 ∧ i.val < 0 := by omega
  simp only [hiff]

theorem transpose_loops_eq : m.transpose_loops = pure m.transpose := by
  have hrows : (List.range m.num_rows).foldlM (fun r row =>
      (List.range m.num_cols).foldlM (fun r col => do r.set_cell col row (← m.cell row col)) r)
      (transposed m 0 0) = pure (transposed m m.num_rows 0) :=
    Loop.foldlM_range_eq (fun row => transposed m row 0) fun row hr => transpose_row m hr
  have hzero : (⟨m.num_cols, m.num_rows, fun _ _ => 0⟩ : Matrix T) = transposed m 0 0 := by
    refine congrArg (Matrix.mk m.num_cols m.num_rows) ?_
    funext i j
    simp
  unfold Matrix.transpose_loops
  rw [hzero, hrows]
  refine congrArg pure (congrArg (Matrix.mk m.num_cols m.num_rows) ?_)
  funext i j
  have hj := j.isLt
  exact if_pos (.inl hj)

end Transpose

theorem Matrix.transpose_transpose (m : Matrix T) : m.transpose.transpose = m := rfl

variable [CommRing T]

/-- The product of matrices that conform. -/
def product {m p n : Nat} (a : Fin m → Fin p → T) (b : Fin p → Fin n → T) : Matrix T :=
  ⟨m, n, fun i k => ∑ j, a i j * b j k⟩

theorem operator_mul_product {m p n : Nat} (a : Fin m → Fin p → T) (b : Fin p → Fin n → T) :
    Matrix.operator_mul ⟨m, p, a⟩ ⟨p, n, b⟩ = pure (product a b) :=
  Matrix.operator_mul_of_sizes rfl

theorem product_transpose {m p n : Nat} (a : Fin m → Fin p → T) (b : Fin p → Fin n → T) :
    (product a b).transpose = product (fun k j => b j k) (fun j i => a i j) := by
  refine congrArg (Matrix.mk n m) ?_
  funext k i
  change ∑ j, a i j * b j k = ∑ j, b j k * a i j
  exact Finset.sum_congr rfl fun j _ => mul_comm (a i j) (b j k)

/-- `*=` replaces its object by the product, which has been computed before. -/
theorem operator_mul_assign_eq {ι : Type} [DecidableEq ι] {this m : ι} {objects : Objects ι T}
    (h : (objects this).num_cols = (objects m).num_rows) :
    Objects.operator_mul_assign this m objects =
      Function.update objects this <$> (objects this).operator_mul (objects m) := by
  unfold Objects.operator_mul_assign Matrix.operator_mul
  rw [if_neg (not_not.mpr h), if_neg (not_not.mpr h), map_eq_pure_bind]

/-- **The laws of the products and of `transpose`.** For matrices of any dimensions: `*` gives the
sums of products, and `*=` replaces its object by it and nothing else, also where a square matrix
is multiplied by itself; two transposes give the matrix back; and the transpose of the product is
the product of the transposes in the other order. -/
theorem product_laws {ι : Type} [DecidableEq ι] {m p n : Nat} (a : Fin m → Fin p → T)
    (b : Fin p → Fin n → T) :
    Matrix.operator_mul ⟨m, p, a⟩ ⟨p, n, b⟩ =
      pure ⟨m, n, fun i k => ∑ j, a i j * b j k⟩ ∧
    (∀ (objects : Objects ι T) (this other : ι), objects this = ⟨m, p, a⟩ →
      objects other = ⟨p, n, b⟩ → Objects.operator_mul_assign this other objects =
        Function.update objects this <$> Matrix.operator_mul ⟨m, p, a⟩ ⟨p, n, b⟩) ∧
    Matrix.transpose_loops ⟨m, p, a⟩ >>= Matrix.transpose_loops = pure ⟨m, p, a⟩ ∧
    Matrix.operator_mul ⟨m, p, a⟩ ⟨p, n, b⟩ >>= Matrix.transpose_loops =
      (do
        let b' ← Matrix.transpose_loops ⟨p, n, b⟩
        let a' ← Matrix.transpose_loops ⟨m, p, a⟩
        b'.operator_mul a') := by
  have hmul := operator_mul_product a b
  refine ⟨hmul, ?_, ?_, ?_⟩
  · intro objects this other hthis hother
    rw [operator_mul_assign_eq, hthis, hother]
    rw [hthis, hother]
  · rw [transpose_loops_eq, pure_bind, transpose_loops_eq, Matrix.transpose_transpose]
  · rw [hmul, pure_bind, transpose_loops_eq, transpose_loops_eq, transpose_loops_eq, pure_bind,
      pure_bind, product_transpose]
    exact (operator_mul_product _ _).symm

/-- A square matrix of words, the sums of whose products are over `2 ^ 32`. -/
def words : Fin 2 → Fin 2 → BitVec 32 := fun i j => if i = j then 0x80000001 else 3

theorem product_laws_words :
    Objects.operator_mul_assign () () (fun _ => ⟨2, 2, words⟩) =
      pure fun _ => ⟨2, 2, fun i j => if i = j then 10 else 6⟩ := by
  obtain ⟨hmul, hassign, -⟩ := product_laws (ι := Unit) words words
  rw [hassign (fun _ => ⟨2, 2, words⟩) () () rfl rfl, hmul, map_pure]
  have hsquare : (fun i k => ∑ j, words i j * words j k) = fun i j => if i = j then 10 else 6 := by
    decide
  rw [hsquare]
  rfl

end MatH
end SoundScreen
