import Mathlib.Analysis.SpecialFunctions.Complex.Arg
import SoundScreen.Numpy

/-!
# SoundScreen.Separation.GriffinLim

`griffin_lim` of `music-source-separation-py3/preprocess.py`, which `ml_rt/preprocess.py` has in the
same words. What it takes from librosa and NumPy is a parameter, and may raise what it likes.

* `griffin_lim_eq`: the loop, whose last turn differs from the others, as rounds.
* `griffin_lim_add`: more iterations are the same as starting again from the phase reached.
* `griffin_lim_own`: in exact arithmetic a wave comes back from its own magnitude and phase.
-/

namespace SoundScreen
namespace Separation

variable {C K : Type}

/-- `librosa.stft` and `librosa.istft` with `len_frame` and `len_hop`, the latter with `length`, and
`librosa.magphase`; `np.angle`, `mag * np.exp(1.j * phase)`, and `np.pi * np.random.rand`. -/
structure Transforms (C K : Type) where
  stft : List K → Except PyError (Mat C)
  istft : Option Nat → Mat C → Except PyError (List K)
  magphase : Mat C → Except PyError (Mat K × Mat C)
  angle : C → K
  polar : K → K → C
  random : Nat → Nat → Mat K

/-! ## The source -/

def np_map {α β : Type} (f : α → β) (m : Mat α) : Mat β :=
  ⟨m.rows, m.cols, fun i j => f (m.get i j)⟩

/-- The operands of an elementwise operation. -/
def np_broadcast {α β : Type} (a : Mat α) (b : Mat β) : Except PyError (Mat (α × β)) :=
  match Array3.axis a.rows b.rows, Array3.axis a.cols b.cols with
  | some y, some z =>
    .ok ⟨y.len, z.len, fun i j => (a.get (y.left i) (z.left j), b.get (y.right i) (z.right j))⟩
  | _, _ => .error (.ValueError (s!"operands could not be broadcast together with shapes " ++
      s!"({a.rows},{a.cols}) ({b.rows},{b.cols}) "))

section Source

variable (tr : Transforms C K)

def get_stft_matrix_2d (magnitudes phases : Mat K) : Except PyError (Mat C) := do
  let c ← np_broadcast magnitudes phases
  return np_map (fun p => tr.polar p.1 p.2) c

/-- One turn of the loop: `spec`, and `wav` once it is assigned. -/
def turn (mag : Mat K) (num_iters : Nat) (length : Option Nat) :
    Mat C × Option (List K) → Nat → Except PyError (Mat C × Option (List K))
  | (spec, _), i => do
    let wav ← tr.istft length spec
    if i ≠ num_iters - 1 then
      let spec ← tr.stft wav
      let (_, phase) ← tr.magphase spec
      let phase_angle := np_map tr.angle phase
      let spec ← get_stft_matrix_2d tr mag phase_angle
      return (spec, some wav)
    else
      return (spec, some wav)

def griffin_lim (mag : Mat K) (num_iters : Nat) (phase_angle : Option (Mat K))
    (length : Option Nat) : Except PyError (List K) := do
  if num_iters > 0 then
    let phase_angle := phase_angle.getD (tr.random mag.rows mag.cols)
    let spec ← get_stft_matrix_2d tr mag phase_angle
    match (← (List.range num_iters).foldlM (turn tr mag num_iters length) (spec, none)).2 with
    | some wav => return wav
    | none => .error (.UnboundLocalError "local variable 'wav' referenced before assignment")
  else
    .error .AssertionError

end Source

/-! ## The rounds -/

section Rounds

variable (tr : Transforms C K) (mag : Mat K) (length : Option Nat)

/-- The phase of a wave. -/
def phase_of (wav : List K) : Except PyError (Mat K) := do
  let spec ← tr.stft wav
  let (_, phase) ← tr.magphase spec
  return np_map tr.angle phase

def rounds : Nat → Mat C → Except PyError (Mat C)
  | 0, spec => .ok spec
  | n + 1, spec =>
    tr.istft length spec >>= fun wav => phase_of tr wav >>= get_stft_matrix_2d tr mag >>= rounds n

theorem rounds_add (n m : Nat) (spec : Mat C) :
    rounds tr mag length (n + m) spec =
      rounds tr mag length n spec >>= rounds tr mag length m := by
  induction n generalizing spec with
  | zero => rw [Nat.zero_add]; rfl
  | succ n ih =>
    have hstep : rounds tr mag length (n + m) =
        fun spec => rounds tr mag length n spec >>= rounds tr mag length m := funext ih
    rw [Nat.succ_add]
    simp only [rounds, hstep, bind_assoc]

/-- All turns but the last take the next phase; the last one only makes the wave. -/
theorem turns_eq {n i k : Nat} (h : i + k = n) (spec : Mat C) (wav : Option (List K)) :
    (List.range' i (k + 1)).foldlM (turn tr mag (n + 1) length) (spec, wav) =
      rounds tr mag length k spec >>= fun spec => tr.istft length spec >>= fun wav =>
        .ok (spec, some wav) := by
  induction k generalizing i spec wav with
  | zero =>
    have hturn : turn tr mag (n + 1) length (spec, wav) i =
        tr.istft length spec >>= fun wav => .ok (spec, some wav) := by
      have hlast : ¬i ≠ n + 1 - 1 := by omega
      simp only [turn, if_neg hlast]
      rfl
    simp only [Nat.zero_add, List.range'_one, List.foldlM_cons, List.foldlM_nil, hturn, bind_pure]
    rfl
  | succ k ih =>
    have hturn : turn tr mag (n + 1) length (spec, wav) i =
        tr.istft length spec >>= fun wav => phase_of tr wav >>= get_stft_matrix_2d tr mag >>=
          fun next => .ok (next, some wav) := by
      have hmore : i ≠ n + 1 - 1 := by omega
      simp only [turn, if_pos hmore, phase_of, bind_assoc, pure_bind]
      rfl
    rw [List.range'_succ, List.foldlM_cons, hturn, rounds]
    simp only [bind_assoc]
    refine congrArg (tr.istft length spec >>= ·) (funext fun wav => ?_)
    refine congrArg (phase_of tr wav >>= ·) (funext fun phase => ?_)
    refine congrArg (get_stft_matrix_2d tr mag phase >>= ·) (funext fun next => ?_)
    exact ih (by omega) next _

theorem griffin_lim_eq (n : Nat) (phase_angle : Option (Mat K)) :
    griffin_lim tr mag (n + 1) phase_angle length =
      get_stft_matrix_2d tr mag (phase_angle.getD (tr.random mag.rows mag.cols)) >>=
        rounds tr mag length n >>= tr.istft length := by
  rw [griffin_lim, if_pos (Nat.succ_pos n), bind_assoc]
  refine congrArg (get_stft_matrix_2d tr mag _ >>= ·) (funext fun spec => ?_)
  rw [List.range_eq_range', turns_eq tr mag length (Nat.zero_add n), bind_assoc]
  refine congrArg (rounds tr mag length n spec >>= ·) (funext fun spec => ?_)
  rw [bind_assoc]
  exact bind_pure _

/-- **More iterations.** For all that librosa and NumPy may be, and every magnitude and phase: `n`
iterations and then `m` from the phase of the wave they made are `n + m` iterations, exceptions
included. -/
theorem griffin_lim_add {n m : Nat} (hn : 0 < n) (hm : 0 < m) (phase_angle : Option (Mat K)) :
    griffin_lim tr mag (n + m) phase_angle length =
      griffin_lim tr mag n phase_angle length >>= fun wav => tr.stft wav >>= fun spec =>
        tr.magphase spec >>= fun magphase =>
          griffin_lim tr mag m (some (np_map tr.angle magphase.2)) length := by
  obtain ⟨n, rfl⟩ : ∃ k, n = k + 1 := ⟨n - 1, by omega⟩
  obtain ⟨m, rfl⟩ : ∃ k, m = k + 1 := ⟨m - 1, by omega⟩
  rw [show n + 1 + (m + 1) = n + (m + 1) + 1 by omega, griffin_lim_eq, griffin_lim_eq]
  simp only [griffin_lim_eq, bind_assoc, Option.getD_some]
  refine congrArg (get_stft_matrix_2d tr mag _ >>= ·) (funext fun spec => ?_)
  rw [rounds_add, bind_assoc]
  refine congrArg (rounds tr mag length n spec >>= ·) (funext fun spec => ?_)
  simp only [rounds, phase_of, bind_assoc, pure_bind]

end Rounds

/-! ## A wave of its own -/

section Own

theorem np_broadcast_map {α β : Type} (f : C → α) (g : C → β) (m : Mat C) :
    np_broadcast (np_map f m) (np_map g m) = .ok (np_map (fun z => (f z, g z)) m) := by
  have haxis : ∀ n, Array3.axis n n = some ⟨n, id, id⟩ := fun n => dif_pos rfl
  have hrows : Array3.axis (np_map f m).rows (np_map g m).rows = some ⟨m.rows, id, id⟩ :=
    haxis m.rows
  have hcols : Array3.axis (np_map f m).cols (np_map g m).cols = some ⟨m.cols, id, id⟩ :=
    haxis m.cols
  rw [np_broadcast, hrows, hcols]
  rfl

/-- The complex numbers of NumPy in exact arithmetic, and `librosa.magphase` as it is documented:
the phase is `exp(1.j * phase)` of the phase of the number. -/
structure Exact (tr : Transforms ℂ ℝ) : Prop where
  angle : ∀ z, tr.angle z = z.arg
  polar : ∀ mag phase : ℝ, tr.polar mag phase = mag * Complex.exp (phase * Complex.I)
  magphase : ∀ spec, ∃ mag, tr.magphase spec =
    .ok (mag, np_map (fun z => Complex.exp (z.arg * Complex.I)) spec)

variable {tr : Transforms ℂ ℝ} {length : Option Nat}

/-- Magnitude and phase make the numbers they are taken from. -/
theorem get_stft_matrix_own (htr : Exact tr) (spec : Mat ℂ) :
    get_stft_matrix_2d tr (np_map (‖·‖) spec) (np_map Complex.arg spec) = .ok spec := by
  rw [get_stft_matrix_2d, np_broadcast_map]
  refine congrArg Except.ok ?_
  simp only [np_map, htr.polar, Complex.norm_mul_exp_arg_mul_I]

theorem arg_exp_arg (z : ℂ) : (Complex.exp (z.arg * Complex.I)).arg = z.arg := by
  rw [Complex.exp_mul_I]
  exact Complex.arg_cos_add_sin_mul_I (Complex.arg_mem_Ioc z)

theorem phase_of_own (htr : Exact tr) {wav : List ℝ} {spec : Mat ℂ} (h : tr.stft wav = .ok spec) :
    phase_of tr wav = .ok (np_map Complex.arg spec) := by
  obtain ⟨mag, hmagphase⟩ := htr.magphase spec
  simp only [phase_of, h, bind, Except.bind, hmagphase]
  refine congrArg Except.ok ?_
  simp only [np_map, htr.angle, arg_exp_arg]

/-- **The own phase.** In exact arithmetic a wave that `istft` makes of its own transform comes back
from the magnitude and the phase of this transform, for every positive number of iterations. -/
theorem griffin_lim_own (htr : Exact tr) {wav : List ℝ} {spec : Mat ℂ}
    (hstft : tr.stft wav = .ok spec) (histft : tr.istft length spec = .ok wav) {num_iters : Nat}
    (h : 0 < num_iters) :
    griffin_lim tr (np_map (‖·‖) spec) num_iters (some (np_map Complex.arg spec)) length =
      .ok wav := by
  have hown := get_stft_matrix_own htr spec
  have hrounds : ∀ n, rounds tr (np_map (‖·‖) spec) length n spec = .ok spec := by
    intro n
    induction n with
    | zero => rfl
    | succ n ih =>
      rw [rounds, histft]
      change (phase_of tr wav >>= _ >>= _) = _
      rw [phase_of_own htr hstft]
      change (get_stft_matrix_2d tr _ _ >>= _) = _
      rw [hown]
      exact ih
  obtain ⟨n, rfl⟩ : ∃ k, num_iters = k + 1 := ⟨num_iters - 1, by omega⟩
  rw [griffin_lim_eq, Option.getD_some, hown]
  change (rounds tr _ length n spec >>= _) = _
  rw [hrounds]
  exact histft

/-- Frames of two samples, of which the window keeps the second; the wave is mirrored at its end. -/
noncomputable def shortTransforms : Transforms ℂ ℝ where
  stft w := .ok ⟨2, 1 + w.length / 2, fun i k =>
    let x : ℝ := w.getD (if 2 * k.val < w.length then 2 * k.val else w.length - 2) 0
    if i.val = 0 then x else -x⟩
  istft _ m := .ok ((List.finRange m.cols).dropLast.flatMap fun k =>
    if h : 0 < m.rows then [(m.get ⟨0, h⟩ k).re, 0] else [0, 0])
  magphase spec := .ok (np_map (‖·‖) spec,
    np_map (fun z => Complex.exp (z.arg * Complex.I)) spec)
  angle z := z.arg
  polar mag phase := Complex.ofReal mag * Complex.exp (Complex.ofReal phase * Complex.I)
  random rows cols := ⟨rows, cols, fun _ _ => 0⟩

theorem shortTransforms_exact : Exact shortTransforms :=
  ⟨fun _ => rfl, fun _ _ => rfl, fun _ => ⟨_, rfl⟩⟩

theorem griffin_lim_own_short : ∃ spec, shortTransforms.stft [3, 0] = .ok spec ∧
    griffin_lim shortTransforms (np_map (‖·‖) spec) 2 (some (np_map Complex.arg spec)) none =
      .ok [3, 0] := by
  refine ⟨_, rfl, griffin_lim_own shortTransforms_exact rfl ?_ (by decide)⟩
  simp [shortTransforms, List.finRange]

/-- The first iteration and a second one. -/
theorem griffin_lim_add_short :
    griffin_lim shortTransforms ⟨2, 2, fun _ _ => 3⟩ (1 + 1) none none =
      griffin_lim shortTransforms ⟨2, 2, fun _ _ => 3⟩ 1 none none >>= fun wav =>
        shortTransforms.stft wav >>= fun spec =>
          shortTransforms.magphase spec >>= fun magphase =>
            griffin_lim shortTransforms ⟨2, 2, fun _ _ => 3⟩ 1
              (some (np_map shortTransforms.angle magphase.2)) none :=
  griffin_lim_add shortTransforms _ none Nat.one_pos Nat.one_pos none

end Own

end Separation
end SoundScreen
