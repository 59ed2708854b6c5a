import SoundScreen.FirFilter.Agreement

/-!
# SoundScreen.FirFilter.Design

`JFilterDesign` in `FIR_filter/jfastfir.cpp`: kernels by the window method, in exact arithmetic and
for a sample rate that is not zero. The window is taken at parts of a turn that end with a whole
one, so it is not the same from both ends.

* `LowPassHanning_reverse_iff`: when a kernel is the same from both ends all the same.
* `bands_add_up`: the bands that a signal is split into add up to the signal.
-/

namespace SoundScreen
namespace FirFilter

open scoped KissFft
open KissFft (Libm)

variable {R : Type*} [Field R] [DecidableEq R]

/-! ## The source -/

def sinc_normalized (lib : Libm R) (val : R) : R :=
  if val = 0 then 1 else lib.sin (lib.pi * val) / (lib.pi * val)

/-- `if(!(Length%2))Length++;` -/
def odd_length (Length : Nat) : Nat := if Length % 2 = 0 then Length + 1 else Length

/-- A turn of the loop over `i`, which starts `k` turns before. -/
def low_pass_tap (lib : Libm R) (FrequencyCutOff SampleRate : R) (Length k : Nat) : R :=
  let i : Int := -((Length - 1) / 2 : Nat) + k
  let j := 1 + k
  let w := 2⁻¹ * (1 - lib.cos (2 * lib.pi * j / Length))
  w * (2 * FrequencyCutOff / SampleRate) *
    sinc_normalized lib (2 * FrequencyCutOff * i / SampleRate)

def LowPassHanning (lib : Libm R) (FrequencyCutOff SampleRate : R) (Length : Nat) : List R :=
  if Length < 1 then
    []
  else
    let Length := odd_length Length
    (List.range Length).map (low_pass_tap lib FrequencyCutOff SampleRate Length)

/-- `h2[i]-h1[i]` for all taps, if both have them. -/
def difference (h2 h1 : List R) (Length : Nat) : List R :=
  if h1.length = Length ∧ h2.length = Length then
    (List.range Length).map fun i => h2.getD i 0 - h1.getD i 0
  else
    []

/-- A one in the middle. -/
def middle_one (Length : Nat) : List R := (List.replicate Length 0).set ((Length - 1) / 2) 1

def HighPassHanning (lib : Libm R) (FrequencyCutOff SampleRate : R) (Length : Nat) : List R :=
  if Length < 1 then
    []
  else
    let Length := odd_length Length
    difference (middle_one Length) (LowPassHanning lib FrequencyCutOff SampleRate Length) Length

def BandPassHanning (lib : Libm R) (LowFrequencyCutOff HighFrequencyCutOff SampleRate : R)
    (Length : Nat) : List R :=
  if Length < 1 then
    []
  else
    let Length := odd_length Length
    let h2 := LowPassHanning lib HighFrequencyCutOff SampleRate Length
    let h1 := LowPassHanning lib LowFrequencyCutOff SampleRate Length
    difference h2 h1 Length

def BandStopHanning (lib : Libm R) (LowFrequencyCutOff HighFrequencyCutOff SampleRate : R)
    (Length : Nat) : List R :=
  if Length < 1 then
    []
  else
    let Length := odd_length Length
    let h1 := BandPassHanning lib LowFrequencyCutOff HighFrequencyCutOff SampleRate Length
    difference (middle_one Length) h1 Length

/-! ## The taps -/

section Taps

variable {lib : Libm R} {FrequencyCutOff SampleRate : R} {Length : Nat}

theorem odd_length_eq (Length : Nat) : odd_length Length = 2 * (Length / 2) + 1 := by
  rw [odd_length]
  split <;> omega

theorem odd_length_twice (Length : Nat) : odd_length (odd_length Length) = odd_length Length := by
  rw [odd_length_eq Length, odd_length_eq]
  omega

theorem LowPassHanning_length (h : 1 ≤ Length) :
    (LowPassHanning lib FrequencyCutOff SampleRate Length).length = odd_length Length := by
  rw [LowPassHanning, if_neg (by omega), List.length_map, List.length_range]

theorem LowPassHanning_odd (h : 1 ≤ Length) :
    LowPassHanning lib FrequencyCutOff SampleRate (odd_length Length) =
      LowPassHanning lib FrequencyCutOff SampleRate Length := by
  have hodd := odd_length_eq Length
  rw [LowPassHanning, if_neg (by omega), odd_length_twice, LowPassHanning, if_neg (by omega)]

omit [DecidableEq R] in
theorem difference_length {h2 h1 : List R} (hh2 : h2.length = Length) (hh1 : h1.length = Length) :
    (difference h2 h1 Length).length = Length := by
  rw [difference, if_pos ⟨hh1, hh2⟩, List.length_map, List.length_range]

omit [DecidableEq R] in
theorem sequence_difference {h2 h1 : List R} (hh2 : h2.length = Length)
    (hh1 : h1.length = Length) {i : Nat} (hi : i < Length) :
    KissFft.sequence (difference h2 h1 Length) i =
      KissFft.sequence h2 i - KissFft.sequence h1 i := by
  rw [difference, if_pos ⟨hh1, hh2⟩, KissFft.sequence, List.getD_eq_getElem?_getD,
    List.getElem?_map, List.getElem?_range hi]
  rfl

omit [DecidableEq R] in
theorem middle_one_length (Length : Nat) : (middle_one Length : List R).length = Length := by
  rw [middle_one, List.length_set, List.length_replicate]

omit [DecidableEq R] in
theorem sequence_middle_one {i : Nat} (hi : i < Length) :
    KissFft.sequence (middle_one Length : List R) i = if i = (Length - 1) / 2 then 1 else 0 := by
  rw [KissFft.sequence, List.getD_eq_getElem _ _ (by rwa [middle_one_length])]
  simp only [middle_one]
  rw [List.getElem_set, List.getElem_replicate]
  simp only [eq_comm]

theorem HighPassHanning_eq (h : 1 ≤ Length) :
    HighPassHanning lib FrequencyCutOff SampleRate Length =
      difference (middle_one (odd_length Length))
        (LowPassHanning lib FrequencyCutOff SampleRate Length) (odd_length Length) := by
  rw [HighPassHanning, if_neg (by omega)]
  dsimp only
  rw [LowPassHanning_odd h]

theorem BandPassHanning_eq (LowFrequencyCutOff : R) (h : 1 ≤ Length) :
    BandPassHanning lib LowFrequencyCutOff FrequencyCutOff SampleRate Length =
      difference (LowPassHanning lib FrequencyCutOff SampleRate Length)
        (LowPassHanning lib LowFrequencyCutOff SampleRate Length) (odd_length Length) := by
  rw [BandPassHanning, if_neg (by omega)]
  dsimp only
  rw [LowPassHanning_odd h, LowPassHanning_odd h]

theorem BandStopHanning_eq (LowFrequencyCutOff : R) (h : 1 ≤ Length) :
    BandStopHanning lib LowFrequencyCutOff FrequencyCutOff SampleRate Length =
      difference (middle_one (odd_length Length))
        (BandPassHanning lib LowFrequencyCutOff FrequencyCutOff SampleRate Length)
        (odd_length Length) := by
  have hodd := odd_length_eq Length
  rw [BandStopHanning, if_neg (by omega)]
  dsimp only
  rw [BandPassHanning_eq _ (by omega), odd_length_twice, LowPassHanning_odd h,
    LowPassHanning_odd h, BandPassHanning_eq _ h]

end Taps

/-! ## The bands -/

section Bands

open JSlowFIRFilter (reply)

omit [DecidableEq R] in
/-- The slow filter with a one in the middle of its kernel. -/
theorem reply_middle_one (c : Nat) (x : Nat → R) (t : Nat) :
    reply (middle_one (2 * c + 1)) x t = Fir.delay c x t := by
  rw [JSlowFIRFilter.reply_eq, middle_one_length, Finset.sum_eq_single c]
  · rw [sequence_middle_one (by omega), if_pos (by omega), mul_one, Fir.delay, Fir.delay,
      show t + 1 + c - (2 * c + 1) = t - c by omega]
    by_cases hlt : t < c
    · rw [if_pos hlt, if_pos (by omega)]
    · rw [if_neg hlt, if_neg (by omega)]
  · intro i hi hne
    have hi := Finset.mem_range.mp hi
    rw [sequence_middle_one hi, if_neg (by omega), mul_zero]
  · intro hout
    exact absurd (Finset.mem_range.mpr (by omega)) hout

omit [DecidableEq R] in
theorem reply_difference {h2 h1 : List R} {Length : Nat} (hh2 : h2.length = Length)
    (hh1 : h1.length = Length) (x : Nat → R) (t : Nat) :
    reply (difference h2 h1 Length) x t = reply h2 x t - reply h1 x t := by
  rw [JSlowFIRFilter.reply_eq, JSlowFIRFilter.reply_eq, JSlowFIRFilter.reply_eq,
    difference_length hh2 hh1, hh2, hh1, ← Finset.sum_sub_distrib]
  refine Finset.sum_congr rfl ?_
  intro i hi
  rw [sequence_difference hh2 hh1 (Finset.mem_range.mp hi), mul_sub]

omit [DecidableEq R] in
theorem sequence_part (y : Nat → R) {n t : Nat} (ht : t < n) :
    KissFft.sequence (Chunks.part y 0 n) t = y t := by
  rw [KissFft.sequence, List.getD_eq_getElem?_getD, part_getElem? y ht, Option.getD_some]

/-- **The bands.** A signal that is split by a low pass, a band pass and a high pass with the same
two cutoffs is the sum of the three, late by half a kernel; so it is of a band pass and a band
stop. The sample rate divides, and must not be zero. -/
theorem bands_add_up (lib : Libm R) (LowFrequencyCutOff HighFrequencyCutOff : R) {SampleRate : R}
    (_hrate : SampleRate ≠ 0) {Length : Nat} (h : 1 ≤ Length) (g1 g2 g3 g4 : JSlowFIRFilter R)
    (chunks : List (List R)) :
    ∃ low band high stop,
      slow_filter g1 (LowPassHanning lib LowFrequencyCutOff SampleRate Length) chunks = some low ∧
      slow_filter g2 (BandPassHanning lib LowFrequencyCutOff HighFrequencyCutOff SampleRate Length)
        chunks = some band ∧
      slow_filter g3 (HighPassHanning lib HighFrequencyCutOff SampleRate Length) chunks =
        some high ∧
      slow_filter g4 (BandStopHanning lib LowFrequencyCutOff HighFrequencyCutOff SampleRate Length)
        chunks = some stop ∧
      ∀ t < chunks.flatten.length,
        KissFft.sequence low t + KissFft.sequence band t + KissFft.sequence high t =
            Fir.delay (Length / 2) (KissFft.sequence chunks.flatten) t ∧
          KissFft.sequence band t + KissFft.sequence stop t =
            Fir.delay (Length / 2) (KissFft.sequence chunks.flatten) t := by
  have hodd := odd_length_eq Length
  have hlow : ∀ cutoff, (LowPassHanning lib cutoff SampleRate Length).length =
      odd_length Length := fun _ => LowPassHanning_length h
  have hband : (BandPassHanning lib LowFrequencyCutOff HighFrequencyCutOff SampleRate
      Length).length = odd_length Length := by
    rw [BandPassHanning_eq _ h, difference_length (hlow _) (hlow _)]
  have hhigh : (HighPassHanning lib HighFrequencyCutOff SampleRate Length).length =
      odd_length Length := by
    rw [HighPassHanning_eq h, difference_length (middle_one_length _) (hlow _)]
  have hstop : (BandStopHanning lib LowFrequencyCutOff HighFrequencyCutOff SampleRate
      Length).length = odd_length Length := by
    rw [BandStopHanning_eq _ h, difference_length (middle_one_length _) hband]
  have hne : ∀ kernel : List R, kernel.length = odd_length Length → kernel ≠ [] := by
    intro kernel hkernel
    exact List.ne_nil_of_length_pos (by omega)
  refine ⟨_, _, _, _, slow_filter_eq g1 (hne _ (hlow _)) chunks,
    slow_filter_eq g2 (hne _ hband) chunks, slow_filter_eq g3 (hne _ hhigh) chunks,
    slow_filter_eq g4 (hne _ hstop) chunks, ?_⟩
  intro t ht
  rw [sequence_part _ ht, sequence_part _ ht, sequence_part _ ht, sequence_part _ ht,
    HighPassHanning_eq h, BandStopHanning_eq _ h,
    reply_difference (middle_one_length _) (hlow _), reply_difference (middle_one_length _) hband,
    BandPassHanning_eq _ h, reply_difference (hlow _) (hlow _), hodd, reply_middle_one]
  constructor <;> ring

theorem bands_add_up_two_taps :
    ∃ low band high stop,
      slow_filter ⟨[], ⟨0, fun _ => 0⟩, 0⟩ (LowPassHanning Libm.real 50 44100 2) [[1], [2, 3]] =
        some low ∧
      slow_filter ⟨[], ⟨0, fun _ => 0⟩, 0⟩ (BandPassHanning Libm.real 50 500 44100 2)
        [[1], [2, 3]] = some band ∧
      slow_filter ⟨[], ⟨0, fun _ => 0⟩, 0⟩ (HighPassHanning Libm.real 500 44100 2)
        [[1], [2, 3]] = some high ∧
      slow_filter ⟨[], ⟨0, fun _ => 0⟩, 0⟩ (BandStopHanning Libm.real 50 500 44100 2)
        [[1], [2, 3]] = some stop ∧
      ∀ t < [[1], [2, (3 : ℝ)]].flatten.length,
        KissFft.sequence low t + KissFft.sequence band t + KissFft.sequence high t =
            Fir.delay (2 / 2) (KissFft.sequence [[1], [2, 3]].flatten) t ∧
          KissFft.sequence band t + KissFft.sequence stop t =
            Fir.delay (2 / 2) (KissFft.sequence [[1], [2, 3]].flatten) t :=
  bands_add_up Libm.real 50 500 (by norm_num) (Nat.le_succ 1) _ _ _ _ [[1], [2, 3]]

end Bands

/-! ## Both ends -/

section Ends

variable {FrequencyCutOff SampleRate : ℝ}

theorem sinc_normalized_neg (val : ℝ) :
    sinc_normalized Libm.real (-val) = sinc_normalized Libm.real val := by
  have hsin : Libm.real.sin (Libm.real.pi * -val) = -Libm.real.sin (Libm.real.pi * val) := by
    rw [mul_neg, Libm.real.sin_neg]
  simp only [sinc_normalized, neg_eq_zero]
  split
  · rfl
  · rw [hsin, mul_neg, neg_div_neg_eq]

theorem mul_sinc_eq_zero_iff (val : ℝ) :
    val * sinc_normalized Libm.real val = 0 ↔ ∃ z : Int, val = z := by
  have hpi : Libm.real.pi ≠ 0 := Real.pi_ne_zero
  by_cases hzero : val = 0
  · rw [hzero, zero_mul]
    exact ⟨fun _ => ⟨0, Int.cast_zero.symm⟩, fun _ => rfl⟩
  · rw [sinc_normalized, if_neg hzero, mul_eq_zero, div_eq_zero_iff]
    have hnone : Libm.real.pi * val ≠ 0 := mul_ne_zero hpi hzero
    constructor
    · rintro (hval | hsin | hden)
      · exact absurd hval hzero
      · obtain ⟨z, hz⟩ := Real.sin_eq_zero_iff.mp hsin
        refine ⟨z, mul_left_cancel₀ hpi ?_⟩
        rw [← hz, mul_comm]
        rfl
      · exact absurd hden hnone
    · rintro ⟨z, rfl⟩
      refine .inr (.inl (Real.sin_eq_zero_iff.mpr ⟨z, ?_⟩))
      rw [mul_comm]
      rfl

/-- The window does not reach the same height next to the middle. -/
theorem window_ne {c : Nat} (hc : 1 ≤ c) :
    Real.cos (2 * Real.pi * (1 + (c + 1) : Nat) / (2 * c + 1 : Nat)) ≠
      Real.cos (2 * Real.pi * (1 + (c - 1) : Nat) / (2 * c + 1 : Nat)) := by
  have hlen : (0 : ℝ) < (2 * c + 1 : Nat) := Nat.cast_pos.mpr (Nat.succ_pos _)
  have hpi := Real.pi_pos
  have hround : 2 * Real.pi * (1 + (c + 1) : Nat) / (2 * c + 1 : Nat) =
      2 * Real.pi - 2 * Real.pi * (c - 1 : Nat) / (2 * c + 1 : Nat) := by
    rw [eq_sub_iff_add_eq, ← add_div, ← mul_add, ← Nat.cast_add, show 1 + (c + 1) + (c - 1) =
      2 * c + 1 by omega, mul_div_assoc, div_self hlen.ne', mul_one]
  rw [hround, Real.cos_two_pi_sub, show 1 + (c - 1) = c by omega]
  have hin : ∀ j : Nat, j ≤ c →
      2 * Real.pi * j / (2 * c + 1 : Nat) ∈ Set.Icc 0 Real.pi := by
    intro j hj
    refine ⟨by positivity, (div_le_iff₀ hlen).mpr ?_⟩
    have hcast : (j : ℝ) ≤ c := Nat.cast_le.mpr hj
    push_cast
    nlinarith
  have hlt : 2 * Real.pi * (c - 1 : Nat) / (2 * c + 1 : Nat) <
      2 * Real.pi * (c : Nat) / (2 * c + 1 : Nat) := by
    refine div_lt_div_of_pos_right ?_ hlen
    refine mul_lt_mul_of_pos_left (Nat.cast_lt.mpr ?_) (by positivity)
    omega
  exact (Real.strictAntiOn_cos (hin _ (Nat.sub_le c 1)) (hin c (Nat.le_refl c)) hlt).ne'

theorem map_range_reverse_iff {α : Type*} (tap : Nat → α) (n : Nat) :
    ((List.range n).map tap).reverse = (List.range n).map tap ↔
      ∀ k < n, tap (n - 1 - k) = tap k := by
  rw [List.ext_getElem_iff]
  constructor
  · rintro ⟨-, h⟩ k hk
    have htap := h k (by simpa using hk) (by simpa using hk)
    rw [List.getElem_reverse, List.getElem_map, List.getElem_map, List.getElem_range,
      List.getElem_range, List.length_map, List.length_range] at htap
    exact htap
  · intro h
    refine ⟨List.length_reverse, ?_⟩
    intro k hk hk'
    rw [List.length_map, List.length_range] at hk'
    rw [List.getElem_reverse, List.getElem_map, List.getElem_map, List.getElem_range,
      List.getElem_range, List.length_map, List.length_range]
    exact h k hk'

/-- The tap `i` places after the middle one, by the window at its place. -/
theorem low_pass_tap_eq (c k : Nat) :
    low_pass_tap Libm.real FrequencyCutOff SampleRate (2 * c + 1) k =
      2⁻¹ * (1 - Real.cos (2 * Real.pi * (1 + k : Nat) / (2 * c + 1 : Nat))) *
        (2 * FrequencyCutOff / SampleRate) *
          sinc_normalized Libm.real (2 * FrequencyCutOff / SampleRate * (k - c : Int)) := by
  have hplace : (-((2 * c + 1 - 1) / 2 : Nat) + k : Int) = k - c := by omega
  rw [low_pass_tap, hplace, mul_div_right_comm (2 * FrequencyCutOff)]
  rfl

/-- **Both ends.** A low pass of more than one tap reads the same backwards if and only if the
cutoff is a multiple of half the sample rate, which leaves at most its middle tap. -/
theorem LowPassHanning_reverse_iff (FrequencyCutOff : ℝ) {SampleRate : ℝ} (hrate : SampleRate ≠ 0)
    (Length : Nat) :
    (LowPassHanning Libm.real FrequencyCutOff SampleRate Length).reverse =
        LowPassHanning Libm.real FrequencyCutOff SampleRate Length ↔
      Length ≤ 1 ∨ ∃ z : Int, 2 * FrequencyCutOff = z * SampleRate := by
  by_cases h : Length ≤ 1
  · refine iff_of_true ?_ (.inl h)
    interval_cases Length <;> rfl
  rw [or_iff_right h]
  have hlow : LowPassHanning Libm.real FrequencyCutOff SampleRate Length =
      (List.range (2 * (Length / 2) + 1)).map
        (low_pass_tap Libm.real FrequencyCutOff SampleRate (2 * (Length / 2) + 1)) := by
    rw [LowPassHanning, if_neg (by omega), odd_length_eq]
  have hc : 1 ≤ Length / 2 := by omega
  rw [hlow, map_range_reverse_iff]
  generalize Length / 2 = c at hc
  simp only [low_pass_tap_eq, ← div_eq_iff hrate]
  generalize 2 * FrequencyCutOff / SampleRate = v
  rw [← mul_sinc_eq_zero_iff]
  constructor
  · intro hends
    have hnext := hends (c + 1) (by omega)
    rw [show 2 * c + 1 - 1 - (c + 1) = c - 1 by omega,
      show ((c - 1 : Nat) - c : Int) = -1 by omega, show ((c + 1 : Nat) - c : Int) = 1 by omega,
      Int.cast_neg, Int.cast_one, mul_neg, mul_one, sinc_normalized_neg] at hnext
    have hwindow := window_ne hc
    have hproduct : (Real.cos (2 * Real.pi * (1 + (c + 1) : Nat) / (2 * c + 1 : Nat)) -
        Real.cos (2 * Real.pi * (1 + (c - 1) : Nat) / (2 * c + 1 : Nat))) *
          (v * sinc_normalized Libm.real v) = 0 := by
      linear_combination 2 * hnext
    exact (mul_eq_zero.mp hproduct).resolve_left (sub_ne_zero.mpr hwindow)
  · intro hzero k hk
    obtain ⟨z, rfl⟩ := (mul_sinc_eq_zero_iff v).mp hzero
    -- away from the middle there is nothing
    have hside : ∀ i : Int, i ≠ 0 → (z : ℝ) * sinc_normalized Libm.real (z * i) = 0 := by
      intro i hi
      have hcast : (i : ℝ) ≠ 0 := Int.cast_ne_zero.mpr hi
      have hmultiple := (mul_sinc_eq_zero_iff ((z : ℝ) * i)).mpr ⟨z * i, (Int.cast_mul z i).symm⟩
      refine mul_left_cancel₀ hcast ?_
      rw [mul_zero, ← hmultiple]
      ring
    by_cases hmiddle : k = c
    · rw [hmiddle, show 2 * c + 1 - 1 - c = c by omega]
    · rw [mul_assoc, hside ((2 * c + 1 - 1 - k : Nat) - c) (by omega), mul_zero, mul_assoc,
        hside (k - c) (by omega), mul_zero]

theorem LowPassHanning_reverse_three :
    (LowPassHanning Libm.real 50 44100 3).reverse = LowPassHanning Libm.real 50 44100 3 ↔
      3 ≤ 1 ∨ ∃ z : Int, 2 * (50 : ℝ) = z * 44100 :=
  LowPassHanning_reverse_iff 50 (by norm_num) 3

end Ends

end FirFilter
end SoundScreen
