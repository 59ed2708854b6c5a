import SoundScreen.MovingAverage.RunningMean

/-!
# SoundScreen.CythonRealTime.RunningMean

`running_mean` of `cython_real_time/audio_helper_filter_optimization.pyx`: the moving average with
totals in `int32`. The samples have 32 bits already, so the sum over a window may not fit
(`entryExact_iff`). The division is exact here.
-/

namespace SoundScreen
namespace AudioHelper

open Interleave MovingSum

def running_mean (matrix : Mat SAMPLE) (window : UInt16) : Except PyError (List ℚ) :=
  MovingAverage.prefixMean (b := 32) BitVec.toInt (matrix.ravel.map Int32.toInt) window.toNat

/-- The sum of `window` samples of the flattened matrix from `i` on. -/
def sampleSum (matrix : Mat SAMPLE) (window : UInt16) (i : Nat) : Int :=
  windowSum window.toNat (matrix.ravel.map Int32.toInt) i

/-- Entry `i` of the result is the exact mean. -/
def EntryExact (matrix : Mat SAMPLE) (window : UInt16) (i : Nat) : Prop :=
  ∃ m, running_mean matrix window = .ok m ∧
    m[i]? = some ((sampleSum matrix window i : ℚ) / window.toNat)

theorem running_mean_entries {matrix : Mat SAMPLE} {window : UInt16} (h₁ : 1 ≤ window.toNat)
    (hw : window.toNat ≤ matrix.rows * matrix.cols) :
    ∃ m, running_mean matrix window = .ok m ∧
      m.length = matrix.rows * matrix.cols - window.toNat + 1 ∧
      ∀ i, i + window.toNat ≤ matrix.rows * matrix.cols →
        m[i]? = some (((BitVec.ofInt 32 (sampleSum matrix window i)).toInt : ℚ) /
          window.toNat) := by
  have hlen : (matrix.ravel.map Int32.toInt).length = matrix.rows * matrix.cols := by
    rw [List.length_map, Mat.ravel_length]
  obtain ⟨m, hm, hmlen, hget⟩ := MovingAverage.prefixMean_entries (b := 32) BitVec.toInt
    (matrix.ravel.map Int32.toInt) h₁ (hlen.symm ▸ hw)
  refine ⟨m, hm, by rw [hmlen, hlen], ?_⟩
  intro i hi
  exact hget i (hlen.symm ▸ hi)

theorem entryExact_iff {matrix : Mat SAMPLE} {window : UInt16} {i : Nat}
    (h₁ : 1 ≤ window.toNat) (hi : i + window.toNat ≤ matrix.rows * matrix.cols) :
    EntryExact matrix window i ↔
      -2 ^ 31 ≤ sampleSum matrix window i ∧ sampleSum matrix window i < 2 ^ 31 := by
  have hw : window.toNat ≤ matrix.rows * matrix.cols := by omega
  obtain ⟨m, hm, -, hget⟩ := running_mean_entries h₁ hw
  have hne : (window.toNat : ℚ) ≠ 0 := by exact_mod_cast (Nat.pos_iff_ne_zero.mp h₁)
  have hfits := toInt_ofInt_iff (b := 32) (by decide) (sampleSum matrix window i)
  constructor
  · rintro ⟨m', hm', hexact⟩
    rw [hm] at hm'
    cases hm'
    rw [hget i hi, Option.some_inj, div_left_inj' hne] at hexact
    exact hfits.mp (by exact_mod_cast hexact)
  · intro h
    exact ⟨m, hm, by rw [hget i hi, hfits.mpr h]⟩

/-- **When the mean in 32 bits is exact.** For every matrix and window, entry by entry and for the
whole result: exactly when the sum over the window is an `int32`. -/
theorem running_mean_exact_iff (matrix : Mat SAMPLE) (window : UInt16) (h₁ : 1 ≤ window.toNat)
    (hw : window.toNat ≤ matrix.rows * matrix.cols) :
    (∃ m, running_mean matrix window = .ok m ∧
      m.length = matrix.rows * matrix.cols - window.toNat + 1) ∧
    (∀ i, i + window.toNat ≤ matrix.rows * matrix.cols → (EntryExact matrix window i ↔
      -2 ^ 31 ≤ sampleSum matrix window i ∧ sampleSum matrix window i < 2 ^ 31)) ∧
    ((∀ i, i + window.toNat ≤ matrix.rows * matrix.cols → EntryExact matrix window i) ↔
      ∀ i, i + window.toNat ≤ matrix.rows * matrix.cols →
        -2 ^ 31 ≤ sampleSum matrix window i ∧ sampleSum matrix window i < 2 ^ 31) := by
  obtain ⟨m, hm, hlen, -⟩ := running_mean_entries h₁ hw
  refine ⟨⟨m, hm, hlen⟩, fun i hi => entryExact_iff h₁ hi, ?_⟩
  exact forall_congr' fun i => forall_congr' fun hi => entryExact_iff h₁ hi

/-- One frame, as loud as it gets. -/
def loudFrame : Mat SAMPLE := ⟨1, 2, fun _ _ => 2147483647⟩

/-- A quiet frame. -/
def quietFrame : Mat SAMPLE := ⟨1, 2, fun _ c => if c = 0 then -3 else 8⟩

theorem running_mean_exact_iff_quiet : EntryExact quietFrame 2 0 := by
  have hall := (running_mean_exact_iff quietFrame 2 (by decide) (by decide)).2.1
  exact (hall 0 (by decide)).mpr (by decide +kernel)

/-- The mean of the loud frame comes out as -1. -/
theorem loud_frame_wraps : running_mean loudFrame 2 = .ok [-1] ∧ ¬EntryExact loudFrame 2 0 := by
  have hsum : sampleSum loudFrame 2 0 = 2 ^ 32 - 2 := by decide +kernel
  constructor
  · unfold running_mean
    rw [MovingAverage.prefixMean_ok _ _ (by decide)]
    exact congrArg Except.ok (by decide +kernel)
  · intro hexact
    have hfits := (entryExact_iff (by decide) (by decide)).mp hexact
    omega

end AudioHelper
end SoundScreen
