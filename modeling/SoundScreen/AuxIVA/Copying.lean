import SoundScreen.AuxIVA.Auxiliary
import SoundScreen.AuxIVA.Products
import SoundScreen.AuxIVA.Shapes

/-!
# SoundScreen.AuxIVA.Copying

`unmix` with the matrices of `mat.h` and a `transpose` that gives the transposed matrix and leaves
its object alone, as the loops of `auxiva.cpp` use it. It is between the two other models: `Shapes`
has the `transpose` of `mat.h`, and `Unmix` the mathematical matrices.

* `update_bin_follows`, `update_source_follows`: while no divisor is zero, the variables here are
  the mathematical ones.
* `unmix_follows`: what a call of the mathematical `unmix` returns is what this one computes,
  without a fault and without a line on `cerr`.
-/

namespace SoundScreen
namespace AuxIVA
namespace Copying

open MatH Outcome Shapes

variable {K : Type} [Field K] [LinearOrder K]

/-! ## The loops -/

/-- Lines 48 to 50. -/
def update_auxiliary (k : Fin NUM_INPUTS) (s : Vars K) (freq : Fin FREQUENCY_BINS) :
    Run (Vars K) := do
  let w_k := (← (s.W freq).get_row k).transpose
  let z ← (← w_k.transpose.operator_mul (s.x freq)).cell 0 0
  return { s with
    w_k := Function.update s.w_k freq w_k
    r_k := Function.update s.r_k k (s.r_k k + |z| ^ 2) }

/-- Lines 60 to 66. -/
def update_bin (S : Sqrt K) (k : Fin NUM_INPUTS) (s : Vars K) (freq : Fin FREQUENCY_BINS) :
    Run (Vars K) := do
  let product ← (s.x freq).operator_mul (s.x freq).transpose
  let V ← ((s.V k freq).scale (ALPHA K)).operator_add
    ((product.operator_div (s.r_k k)).scale (1 - ALPHA K))
  let w_k ← (← (← (s.W freq).operator_mul V).inverse).operator_mul s.e_k
  let norm ← (← (← w_k.transpose.operator_mul V).operator_mul w_k).cell 0 0
  let w_k := w_k.operator_div (S.sqrt norm)
  let W ← (s.W freq).set_row k w_k.transpose
  return { s with
    W := Function.update s.W freq W
    w_k := Function.update s.w_k freq w_k
    V := Function.update s.V k (Function.update (s.V k) freq V) }

/-- The loop body over `k`. -/
def update_source (S : Sqrt K) (s : Vars K) (k : Fin NUM_INPUTS) : Run (Vars K) := do
  let e_k ← s.e_k.set_cell k 0 1
  let s ← (List.finRange FREQUENCY_BINS).foldlM (update_auxiliary k) { s with e_k := e_k }
  let s := { s with r_k := Function.update s.r_k k (S.sqrt (s.r_k k)) }
  let s ← (List.finRange FREQUENCY_BINS).foldlM (update_bin S k) s
  let e_k ← s.e_k.set_cell 0 0 0
  let e_k ← e_k.set_cell 1 0 0
  return { s with e_k := e_k }

/-- One call: the variables after the loops and, if not `setup`, `y`. -/
def unmix (S : Sqrt K) (setup : Bool) (x : Fin FREQUENCY_BINS → Vec2 K) (statics : Statics K) :
    Run (Vars K × Option (Fin FREQUENCY_BINS → MatH.Matrix K)) := do
  let s ← passes.foldlM (update_source S) (start x statics)
  if setup then
    return (s, none)
  else
    let y ← (List.finRange FREQUENCY_BINS).foldlM (fun y freq => do
      return Function.update y freq (← (s.W freq).operator_mul (s.x freq))) fun _ => column 0
    return (s, some y)

/-! ## Operations on two channels -/

section Cells

variable {K : Type}

theorem set_cell_column (v : Vec2 K) (k : Fin NUM_INPUTS) (t : K) :
    (column v).set_cell k 0 t = pure (column (Function.update v k t)) := by
  have hcell : ∀ i (j : Fin 1), (if i.val = k.val ∧ j.val = 0 then t else v i) =
      Function.update v k t i := by
    intro i j
    by_cases hi : i = k
    · rw [hi, Function.update_self, if_pos ⟨rfl, Fin.val_eq_zero j⟩]
    · rw [Function.update_of_ne hi, if_neg fun h => hi (Fin.ext h.1)]
  refine (if_pos ⟨k.isLt, Nat.one_pos⟩).trans (congrArg pure ?_)
  exact congrArg (MatH.Matrix.mk 2 1) (funext fun i => funext fun j => hcell i j)

theorem get_row_square (w : Mat2 K) (k : Fin NUM_INPUTS) :
    (square w).get_row k = pure (column (w k)).transpose := (square w).get_row_ok k

theorem set_row_square (w : Mat2 K) (k : Fin NUM_INPUTS) (v : Vec2 K) :
    (square w).set_row k (column v).transpose = pure (square (w.updateRow k v)) := by
  have hloop : (square w).set_row k (column v).transpose = pure ⟨2, 2, fun i j =>
      if i.val = k.val ∧ j.val = 1 then v 1 else if i.val = k.val ∧ j.val = 0 then v 0 else
        w i j⟩ := by
    fin_cases k <;> rfl
  refine hloop.trans (congrArg pure ?_)
  refine congrArg (MatH.Matrix.mk 2 2) (funext fun i => funext fun j => ?_)
  rw [Matrix.updateRow_apply]
  by_cases hi : i = k
  · rw [if_pos hi]
    fin_cases j
    · exact (if_neg fun h => Nat.zero_ne_one h.2).trans (if_pos ⟨congrArg Fin.val hi, rfl⟩)
    · exact if_pos ⟨congrArg Fin.val hi, rfl⟩
  · rw [if_neg hi, if_neg fun h => hi (Fin.ext h.1), if_neg fun h => hi (Fin.ext h.1)]

theorem cell_one (z : K) : (MatH.Matrix.mk 1 1 fun _ _ => z).cell 0 0 = pure z := rfl

end Cells

section Operations

variable {K : Type} [Field K]

/-- `e_k` after line 70. -/
theorem single_reset (k : Fin NUM_INPUTS) :
    Function.update (Function.update (Pi.single k 1 : Vec2 K) 0 0) 1 0 = 0 := by
  funext i
  fin_cases i
  · rfl
  · rfl

theorem square_mul_column (m : Mat2 K) (v : Vec2 K) :
    (square m).operator_mul (column v) = pure (column (m.mulVec v)) :=
  operator_mul_product (fun i j => m i j) fun i _ => v i

theorem square_mul_square (a b : Mat2 K) :
    (square a).operator_mul (square b) = pure (square (a * b)) :=
  operator_mul_product (fun i j => a i j) fun i j => b i j

theorem column_mul_transpose (v : Vec2 K) :
    (column v).operator_mul (column v).transpose = pure (square (Matrix.vecMulVec v v)) := by
  refine (operator_mul_product (fun i _ => v i) fun _ j => v j).trans (congrArg pure ?_)
  refine congrArg (MatH.Matrix.mk 2 2) (funext fun i => funext fun j => ?_)
  exact Fin.sum_univ_one _

theorem transpose_mul_square (w : Vec2 K) (V : Mat2 K) :
    (column w).transpose.operator_mul (square V) = pure (column (Matrix.vecMul w V)).transpose :=
  operator_mul_product (fun _ => w) fun i j => V i j

theorem transpose_mul_column (u w : Vec2 K) :
    (column u).transpose.operator_mul (column w) = pure ⟨1, 1, fun _ _ => u ⬝ᵥ w⟩ :=
  operator_mul_product (fun _ => u) fun i _ => w i

theorem column_div (v : Vec2 K) (z : K) : (column v).operator_div z = column (z⁻¹ • v) := by
  refine congrArg (MatH.Matrix.mk 2 1) (funext fun i => funext fun _ => ?_)
  exact div_eq_inv_mul (v i) z

theorem inverse_square (m : Mat2 K) : (square m).inverse = pure (square (AuxIVA.inverse m)) := by
  have hloops : (square m).inverse = pure ⟨2, 2, fun i j =>
      (if i.val = 1 ∧ j.val = 1 then m 0 0 else if i.val = 1 ∧ j.val = 0 then -m 1 0 else
        if i.val = 0 ∧ j.val = 1 then -m 0 1 else if i.val = 0 ∧ j.val = 0 then m 1 1 else 0) /
        AuxIVA.determinant m⟩ := rfl
  refine hloops.trans (congrArg pure ?_)
  refine congrArg (MatH.Matrix.mk 2 2) (funext fun i => funext fun j => ?_)
  rw [div_eq_inv_mul]
  fin_cases i <;> fin_cases j <;> rfl

/-- Line 60, with the new covariance. -/
theorem square_add_square (V X : Mat2 K) (a b r : K) :
    ((square V).scale a).operator_add (((square X).operator_div r).scale b) =
      pure (square (a • V + b • r⁻¹ • X)) := by
  have hcell : ∀ i j, V i j * a + X i j / r * b = (a • V + b • r⁻¹ • X) i j := by
    intro i j
    rw [mul_comm (V i j), mul_comm _ b, div_eq_inv_mul]
    rfl
  have hsum := MatH.Matrix.operator_add_of_sizes
    (show ((square V).scale a).num_rows = (((square X).operator_div r).scale b).num_rows from rfl)
    rfl
  refine hsum.trans (congrArg pure ?_)
  exact congrArg (MatH.Matrix.mk 2 2) (funext fun i => funext fun j => hcell i j)

end Operations

/-! ## Simulation -/

variable {S : Sqrt K} {x : Fin FREQUENCY_BINS → Vec2 K}

/-- The variables stand for those of the mathematical loops, `e_k` for the vector `e`. -/
structure StandsFor (x : Fin FREQUENCY_BINS → Vec2 K) (e r : Vec2 K) (st : Statics K)
    (s : Vars K) : Prop where
  W : ∀ freq, s.W freq = square (st.W freq)
  V : ∀ k freq, s.V k freq = square (st.V k freq)
  x : ∀ freq, s.x freq = column (x freq)
  r_k : s.r_k = r
  e_k : s.e_k = column e

omit [Field K] [LinearOrder K] in
theorem StandsFor.update {e r : Vec2 K} {st : Statics K} {s : Vars K} (h : StandsFor x e r st s)
    {k : Fin NUM_INPUTS} {freq : Fin FREQUENCY_BINS} {W V : Mat2 K} (w_k : MatH.Matrix K) :
    StandsFor x e r
      { W := Function.update st.W freq W
        V := Function.update st.V k (Function.update (st.V k) freq V) }
      { s with
        W := Function.update s.W freq (square W)
        w_k := Function.update s.w_k freq w_k
        V := Function.update s.V k (Function.update (s.V k) freq (square V)) } := by
  refine ⟨?_, ?_, h.x, h.r_k, h.e_k⟩
  · intro b
    by_cases hb : b = freq
    · subst hb
      simp only [Function.update_self]
    · simp only [Function.update_of_ne hb]
      exact h.W b
  · intro j b
    by_cases hj : j = k
    · subst hj
      by_cases hb : b = freq
      · subst hb
        simp only [Function.update_self]
      · simp only [Function.update_self, Function.update_of_ne hb]
        exact h.V j b
    · simp only [Function.update_of_ne hj]
      exact h.V j b

theorem update_auxiliary_follows {k : Fin NUM_INPUTS} {e r : Vec2 K} {st : Statics K} {s : Vars K}
    (h : StandsFor x e r st s) (freq : Fin FREQUENCY_BINS) :
    ∃ s', update_auxiliary k s freq = pure s' ∧
      StandsFor x e (Function.update r k (r k + |st.W freq k ⬝ᵥ x freq| ^ 2)) st s' := by
  have hstep : update_auxiliary k s freq = pure { s with
      w_k := Function.update s.w_k freq (column (st.W freq k))
      r_k := Function.update r k (r k + |st.W freq k ⬝ᵥ x freq| ^ 2) } := by
    unfold update_auxiliary
    rw [h.W, h.x, h.r_k, get_row_square, pure_bind]
    dsimp only
    rw [MatH.Matrix.transpose_transpose, transpose_mul_column, pure_bind, cell_one, pure_bind]
    rfl
  exact ⟨_, hstep, h.W, h.V, h.x, rfl, h.e_k⟩

/-- Lines 46 to 52. -/
theorem update_auxiliaries_follow {k : Fin NUM_INPUTS} {e r : Vec2 K} {st : Statics K} {s : Vars K}
    (bins : List (Fin FREQUENCY_BINS)) (h : StandsFor x e r st s) :
    ∃ s', bins.foldlM (update_auxiliary k) s = pure s' ∧ StandsFor x e (Function.update r k
      (bins.foldl (fun r freq => r + |st.W freq k ⬝ᵥ x freq| ^ 2) (r k))) st s' := by
  induction bins generalizing r s with
  | nil =>
    refine ⟨s, rfl, ?_⟩
    rw [List.foldl_nil, Function.update_eq_self]
    exact h
  | cons freq bins ih =>
    obtain ⟨s', hstep, hs'⟩ := update_auxiliary_follows (k := k) h freq
    obtain ⟨s'', hrest, hs''⟩ := ih hs'
    rw [Function.update_self, Function.update_idem] at hs''
    refine ⟨s'', ?_, hs''⟩
    rw [List.foldlM_cons, hstep, pure_bind, hrest]

/-- Lines 58 to 66. Divided by a divisor that is not zero, the matrices are the mathematical
ones. -/
theorem update_bin_follows {k : Fin NUM_INPUTS} {r : Vec2 K} {freq : Fin FREQUENCY_BINS}
    {st st' : Statics K} {s : Vars K} (hok : AuxIVA.update_bin S x k (r k) st freq = .ok st')
    (h : StandsFor x (Pi.single k 1) r st s) :
    ∃ s', update_bin S k s freq = pure s' ∧ StandsFor x (Pi.single k 1) r st' s' := by
  unfold AuxIVA.update_bin at hok
  dsimp only at hok
  split at hok
  · cases hok
  split at hok
  · cases hok
  split at hok
  · cases hok
  generalize hV : ALPHA K • st.V k freq +
    (1 - ALPHA K) • (r k)⁻¹ • Matrix.vecMulVec (x freq) (x freq) = V at hok
  generalize hw : (inverse (st.W freq * V)).mulVec (Pi.single k 1) = w at hok
  generalize hnorm : w ⬝ᵥ V.mulVec w = norm at hok
  cases hok
  refine ⟨_, ?_, h.update (column ((S.sqrt norm)⁻¹ • w))⟩
  unfold update_bin
  -- line 60, then the new vector of line 63, its length and its place in `W`
  rw [h.x, column_mul_transpose, pure_bind, h.V, h.r_k, square_add_square, hV, pure_bind]
  rw [h.W, square_mul_square, pure_bind, inverse_square, pure_bind, h.e_k, square_mul_column, hw,
    pure_bind]
  rw [transpose_mul_square, pure_bind, transpose_mul_column, ← Matrix.dotProduct_mulVec, hnorm,
    pure_bind, cell_one, pure_bind]
  dsimp only
  rw [column_div, set_row_square, pure_bind]

theorem update_source_follows {k : Fin NUM_INPUTS} {st st' : Vec2 K × Statics K} {s : Vars K}
    (hok : AuxIVA.update_source S x st k = .ok st') (h : StandsFor x 0 st.1 st.2 s) :
    ∃ s', update_source S s k = pure s' ∧ StandsFor x 0 st'.1 st'.2 s' := by
  obtain ⟨hr, hbins⟩ := update_source_ok hok
  -- `e_k` is the unit vector within a pass, and zero between two passes
  have hset : (column (0 : Vec2 K)).set_cell k 0 1 = pure (column (Pi.single k 1)) :=
    set_cell_column 0 k 1
  obtain ⟨s₁, haux, h₁⟩ := update_auxiliaries_follow (k := k) (List.finRange FREQUENCY_BINS)
    (show StandsFor x (Pi.single k 1) st.1 st.2 { s with e_k := column (Pi.single k 1) } from
      ⟨h.W, h.V, h.x, h.r_k, rfl⟩)
  have hsqrt : Function.update s₁.r_k k (S.sqrt (s₁.r_k k)) = st'.1 := by
    rw [h₁.r_k, Function.update_self, Function.update_idem, hr]
    rfl
  have hk : st'.1 k = divisor S x st k := by
    rw [hr, Function.update_self]
  rw [← hk] at hbins
  obtain ⟨s₂, hloop, h₂⟩ := foldlM_follows (R := StandsFor x (Pi.single k 1) st'.1)
    (g := update_bin S k) (fun _ _ _ _ hbin ha => update_bin_follows hbin ha) hbins
    (show StandsFor x (Pi.single k 1) st'.1 st.2 { s₁ with r_k := st'.1 } from
      ⟨h₁.W, h₁.V, h₁.x, rfl, h₁.e_k⟩)
  have hreset : ∀ v : Vec2 K, (column v).set_cell 0 0 0 = pure (column (Function.update v 0 0)) ∧
      (column v).set_cell 1 0 0 = pure (column (Function.update v 1 0)) :=
    fun v => ⟨set_cell_column v 0 0, set_cell_column v 1 0⟩
  refine ⟨{ s₂ with e_k := column 0 }, ?_, h₂.W, h₂.V, h₂.x, h₂.r_k, rfl⟩
  unfold update_source
  rw [h.e_k, hset, pure_bind, haux, pure_bind]
  dsimp only
  rw [hsqrt, hloop, pure_bind, h₂.e_k, (hreset _).1, pure_bind, (hreset _).2, pure_bind,
    single_reset]

/-- **The matrices of the loops are the mathematical ones.** Where the mathematical `unmix` meets no
zero divisor, `unmix` with a `transpose` that leaves its object alone runs without a fault and
without a line on `cerr`, and computes the same static variables and the same `y`. -/
theorem unmix_follows {setup : Bool} {st st' : Statics K}
    {y : Option (Fin FREQUENCY_BINS → Vec2 K)} (h : AuxIVA.unmix S setup x st = .ok (st', y)) :
    ∃ s, exec (unmix S setup x st) = (.ok (s, y.map fun y freq => column (y freq)), []) ∧
      (∀ freq, s.W freq = square (st'.W freq)) ∧
      ∀ k freq, s.V k freq = square (st'.V k freq) := by
  obtain ⟨⟨r, statics⟩, hpasses, hreturn⟩ := bind_eq_ok h
  cases hreturn
  obtain ⟨s, hloop, hs⟩ := foldlM_follows (R := fun a s => StandsFor x 0 a.1 a.2 s)
    (g := update_source S) (fun _ _ _ _ hpass ha => update_source_follows hpass ha) hpasses
    (show StandsFor x 0 (fun _ => 0) st (start x st) from
      ⟨fun _ => rfl, fun _ _ => rfl, fun _ => rfl, rfl, rfl⟩)
  have hy := Loop.foldlM_update (m := Run) (v := fun freq => column ((st'.W freq).mulVec (x freq)))
    (f := fun freq => (s.W freq).operator_mul (s.x freq)) (fun freq => by
      rw [hs.W, hs.x, square_mul_column]) (List.finRange FREQUENCY_BINS) fun _ => column 0
  simp only [List.mem_finRange, if_true] at hy
  refine ⟨s, ?_, hs.W, hs.V⟩
  have hcall : unmix S setup x st = pure (s, (if setup then none else
      some fun freq => (st'.W freq).mulVec (x freq)).map fun y freq => column (y freq)) := by
    unfold unmix
    rw [show passes.foldlM (update_source S) (start x st) = pure s from hloop, pure_bind]
    cases setup with
    | true => rfl
    | false =>
      rw [if_neg Bool.false_ne_true, hy]
      rfl
  rw [hcall]
  rfl

end Copying
end AuxIVA
end SoundScreen
