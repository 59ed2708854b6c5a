import SoundScreen.AuxIVA.MatH
import SoundScreen.AuxIVA.Unmix

/-!
# SoundScreen.AuxIVA.Shapes

`unmix` with the matrices of `mat.h`, whose `transpose` changes its object: where line 60 reads
`x[freq] * x[freq].transpose()`, both operands are the transposed object.

* `update_auxiliary_ok`: lines 48 to 50 are sound, since `w_k` is set anew in each bin.
* `update_bin_fault`: line 60 is not. The product takes the size-error branch and the sum then
  reads a row that is not there.
* `shapes_fail`: this happens in the first bin of every call.
-/

namespace SoundScreen
namespace AuxIVA
namespace Shapes

open MatH

variable {K : Type} [Field K] [LinearOrder K]

/-- The variables of `unmix`, without `y`. -/
structure Vars (K : Type) where
  W : Fin FREQUENCY_BINS → MatH.Matrix K
  w_k : Fin FREQUENCY_BINS → MatH.Matrix K
  V : Fin NUM_INPUTS → Fin FREQUENCY_BINS → MatH.Matrix K
  x : Fin FREQUENCY_BINS → MatH.Matrix K
  r_k : Fin NUM_INPUTS → K
  e_k : MatH.Matrix K

/-- A vector as a matrix of one column. -/
def column (v : Vec2 K) : MatH.Matrix K := ⟨NUM_INPUTS, 1, fun i _ => v i⟩

def square (m : Mat2 K) : MatH.Matrix K := ⟨NUM_INPUTS, NUM_INPUTS, fun i j => m i j⟩

/-- Lines 48 to 50. -/
def update_auxiliary (k : Fin NUM_INPUTS) (s : Vars K) (freq : Fin FREQUENCY_BINS) :
    Run (Vars K) := do
  let w_k := (← (s.W freq).get_row k).transpose
  let w_k := w_k.transpose
  let z ← (← w_k.operator_mul (s.x freq)).cell 0 0
  return { s with
    w_k := Function.update s.w_k freq w_k
    r_k := Function.update s.r_k k (s.r_k k + |z| ^ 2) }

/-- Lines 60 to 66. Each `transpose` changes its object before the operation that reads it. -/
def update_bin (S : Sqrt K) (k : Fin NUM_INPUTS) (s : Vars K) (freq : Fin FREQUENCY_BINS) :
    Run (Vars K) := do
  let x := (s.x freq).transpose
  let product ← x.operator_mul x
  let V ← ((s.V k freq).scale (ALPHA K)).operator_add
    ((product.operator_div (s.r_k k)).scale (1 - ALPHA K))
  let w_k ← (← (← (s.W freq).operator_mul V).inverse).operator_mul s.e_k
  let w_k := w_k.transpose
  let norm ← (← (← w_k.operator_mul V).operator_mul w_k).cell 0 0
  let w_k := w_k.operator_div (S.sqrt norm)
  let w_k := w_k.transpose
  let W ← (s.W freq).set_row k w_k
  return { s with
    W := Function.update s.W freq W
    w_k := Function.update s.w_k freq w_k
    V := Function.update s.V k (Function.update (s.V k) freq V)
    x := Function.update s.x freq x }

/-- The loop body over `k`. -/
def update_source (S : Sqrt K) (s : Vars K) (k : Fin NUM_INPUTS) : Run (Vars K) := do
  let e_k ← s.e_k.set_cell k 0 1
  let s ← (List.finRange FREQUENCY_BINS).foldlM (update_auxiliary k) { s with e_k := e_k }
  let s := { s with r_k := Function.update s.r_k k (S.sqrt (s.r_k k)) }
  let s ← (List.finRange FREQUENCY_BINS).foldlM (update_bin S k) s
  let e_k ← s.e_k.set_cell 0 0 0
  let e_k ← e_k.set_cell 1 0 0
  return { s with e_k := e_k }

/-- The variables when the loops start. -/
def start (x : Fin FREQUENCY_BINS → Vec2 K) (statics : Statics K) : Vars K where
  W := fun freq => square (statics.W freq)
  w_k := fun _ => column 0
  V := fun k freq => square (statics.V k freq)
  x := fun freq => column (x freq)
  r_k := fun _ => 0
  e_k := column 0

/-- The values of `k` in the passes of a call. -/
def passes : List (Fin NUM_INPUTS) :=
  (List.range UPDATES_PER_FRAME).flatMap fun _ => List.finRange NUM_INPUTS

/-- One call: the variables after the loops and, if not `setup`, `y`. -/
def unmix (S : Sqrt K) (setup : Bool) (x : Fin FREQUENCY_BINS → Vec2 K) (statics : Statics K) :
    Run (Vars K × Option (Fin FREQUENCY_BINS → MatH.Matrix K)) := do
  let s ← passes.foldlM (update_source S) (start x statics)
  if setup then
    return (s, none)
  else
    let y ← (List.finRange FREQUENCY_BINS).foldlM (fun y freq => do
      return Function.update y freq (← (s.W freq).operator_mul (s.x freq))) fun _ => column 0
    return (s, some y)

/-- What the shapes of the variables should be. -/
structure Shaped (s : Vars K) : Prop where
  x : ∀ freq, (s.x freq).num_rows = NUM_INPUTS ∧ (s.x freq).num_cols = 1
  W : ∀ freq, (s.W freq).num_rows = NUM_INPUTS ∧ (s.W freq).num_cols = NUM_INPUTS
  V : ∀ k freq, (s.V k freq).num_rows = NUM_INPUTS ∧ (s.V k freq).num_cols = NUM_INPUTS

/-- A call runs without a line on `cerr` and without a fault, starts every pass with these shapes,
and multiplies each `x[freq]` with its transpose to their outer product. -/
structure KeepsShapes (S : Sqrt K) (setup : Bool) (x : Fin FREQUENCY_BINS → Vec2 K)
    (statics : Statics K) : Prop where
  clean : ∃ result, exec (unmix S setup x statics) = (.ok result, [])
  shaped : ∀ p s lines, exec ((passes.take p).foldlM (update_source S) (start x statics)) =
    (.ok s, lines) → Shaped s
  outer : ∀ freq, (column (x freq)).transpose.operator_mul (column (x freq)).transpose =
    pure (square (Matrix.vecMulVec (x freq) (x freq)))

omit [LinearOrder K] in
/-- The product of line 60: two matrices of one row. -/
theorem line60_product (v : Vec2 K) :
    (column v).transpose.operator_mul (column v).transpose = (do
      cerr "ERROR: operator*(matrix, matrix) wrong sizes: 2, 1"
      return (column v).transpose) := by
  have hsizes : (column v).transpose.num_cols ≠ (column v).transpose.num_rows :=
    show 2 ≠ 1 by decide
  have hline : s!"ERROR: operator*(matrix, matrix) wrong sizes: {2}, {1}" =
      "ERROR: operator*(matrix, matrix) wrong sizes: 2, 1" := by decide
  rw [← hline]
  exact MatH.Matrix.operator_mul_wrong_sizes hsizes

/-- Lines 48 to 50 leave the shapes alone and write nothing. -/
theorem update_auxiliary_ok {k : Fin NUM_INPUTS} {s : Vars K} {freq : Fin FREQUENCY_BINS}
    {w : Mat2 K} {v : Vec2 K} (hW : s.W freq = square w) (hx : s.x freq = column v) :
    ∃ w_k r_k, update_auxiliary k s freq = pure { s with w_k := w_k, r_k := r_k } := by
  have hrow : (square w).get_row k = pure ⟨1, NUM_INPUTS, fun _ col => w k col⟩ :=
    (square w).get_row_ok k
  have hmul := MatH.Matrix.operator_mul_of_sizes
    (show (⟨1, NUM_INPUTS, fun _ col => w k col⟩ : MatH.Matrix K).num_cols = (column v).num_rows
      from rfl)
  unfold update_auxiliary
  rw [hW, hx, hrow, pure_bind]
  simp only [MatH.Matrix.transpose]
  rw [hmul, pure_bind]
  exact ⟨_, _, rfl⟩

theorem update_auxiliaries_ok {k : Fin NUM_INPUTS} {x : Fin FREQUENCY_BINS → Vec2 K}
    {W : Fin FREQUENCY_BINS → Mat2 K} (bins : List (Fin FREQUENCY_BINS)) {s : Vars K}
    (hW : ∀ freq, s.W freq = square (W freq)) (hx : ∀ freq, s.x freq = column (x freq)) :
    ∃ w_k r_k, bins.foldlM (update_auxiliary k) s = pure { s with w_k := w_k, r_k := r_k } := by
  induction bins generalizing s with
  | nil => exact ⟨s.w_k, s.r_k, rfl⟩
  | cons freq bins ih =>
    obtain ⟨w_k, r_k, hfirst⟩ := update_auxiliary_ok (hW freq) (hx freq)
    obtain ⟨w_k', r_k', hrest⟩ := ih (s := { s with w_k := w_k, r_k := r_k }) hW hx
    refine ⟨w_k', r_k', ?_⟩
    rw [List.foldlM_cons, hfirst, pure_bind]
    exact hrest

/-- Line 60: a line on `cerr`, then a read of row 1 of a matrix of one row. -/
theorem update_bin_fault (S : Sqrt K) {k : Fin NUM_INPUTS} {s : Vars K} {freq : Fin FREQUENCY_BINS}
    {m : Mat2 K} {v : Vec2 K} (hV : s.V k freq = square m) (hx : s.x freq = column v) :
    update_bin S k s freq = (do
      cerr "ERROR: operator*(matrix, matrix) wrong sizes: 2, 1"
      throw (.read 1 0)) := by
  have hadd : ∀ r : K, ((square m).scale (ALPHA K)).operator_add
      (((column v).transpose.operator_div r).scale (1 - ALPHA K)) = throw (.read 1 0) := by
    intro r
    exact MatH.Matrix.operator_add_fault ⟨rfl, rfl⟩ ⟨rfl, rfl⟩
  unfold update_bin
  dsimp only
  rw [hV, hx, line60_product, bind_assoc]
  refine congrArg (cerr _ >>= ·) (funext fun _ => ?_)
  rw [pure_bind, hadd]
  rfl

/-- Every call ends in its first pass, in bin 0. -/
theorem unmix_fault (S : Sqrt K) (setup : Bool) (x : Fin FREQUENCY_BINS → Vec2 K)
    (statics : Statics K) :
    exec (unmix S setup x statics) =
      (.error (.read 1 0), ["ERROR: operator*(matrix, matrix) wrong sizes: 2, 1"]) := by
  obtain ⟨e_k, hset⟩ : ∃ e_k, (column (0 : Vec2 K)).set_cell 0 0 1 = pure e_k := ⟨_, rfl⟩
  let s : Vars K := { start x statics with e_k := e_k }
  obtain ⟨w_k, r_k, haux⟩ := update_auxiliaries_ok (k := 0) (x := x) (W := statics.W) (s := s)
    (List.finRange FREQUENCY_BINS) (fun _ => rfl) (fun _ => rfl)
  have hbin : ∀ r_k, update_bin S 0 { s with w_k := w_k, r_k := r_k } 0 = (do
      cerr "ERROR: operator*(matrix, matrix) wrong sizes: 2, 1"
      throw (.read 1 0)) := by
    intro r_k
    exact update_bin_fault S (m := statics.V 0 0) (v := x 0) rfl rfl
  have hsource : update_source S (start x statics) 0 = (do
      cerr "ERROR: operator*(matrix, matrix) wrong sizes: 2, 1"
      throw (.read 1 0)) := by
    unfold update_source
    rw [show (start x statics).e_k = column 0 from rfl, Fin.val_zero, hset, pure_bind, haux,
      pure_bind]
    dsimp only
    rw [List.finRange_succ, List.foldlM_cons, hbin]
    rfl
  unfold unmix
  rw [show passes = [0, 1, 0, 1] from rfl, List.foldlM_cons, hsource]
  rfl

/-- **The shapes are lost at once.** For every frame and all static variables: the first product
of line 60 takes the size-error branch and gives the transposed vector back, and the call ends with
a read outside it. -/
theorem shapes_fail (S : Sqrt K) (setup : Bool) (x : Fin FREQUENCY_BINS → Vec2 K)
    (statics : Statics K) :
    ¬KeepsShapes S setup x statics ∧
    exec (unmix S setup x statics) =
      (.error (.read 1 0), ["ERROR: operator*(matrix, matrix) wrong sizes: 2, 1"]) ∧
    ∀ freq, exec ((column (x freq)).transpose.operator_mul (column (x freq)).transpose) =
      (.ok (column (x freq)).transpose,
        ["ERROR: operator*(matrix, matrix) wrong sizes: 2, 1"]) := by
  have hfault := unmix_fault S setup x statics
  refine ⟨?_, hfault, ?_⟩
  · intro hkeeps
    obtain ⟨result, hclean⟩ := hkeeps.clean
    cases hfault.symm.trans hclean
  · intro freq
    rw [line60_product]
    rfl

/-- A frame heard by one microphone, from identity matrices. -/
theorem one_sided_loses_shapes :
    ¬KeepsShapes real_sqrt true one_sided ⟨fun _ => 1, fun _ _ => 1⟩ := by
  intro hkeeps
  obtain ⟨result, hclean⟩ := hkeeps.clean
  cases (unmix_fault real_sqrt true one_sided ⟨fun _ => 1, fun _ _ => 1⟩).symm.trans hclean

end Shapes
end AuxIVA
end SoundScreen
