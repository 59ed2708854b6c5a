import SoundScreen.Lib.MovingSum
import SoundScreen.Numpy

/-!
# SoundScreen.MovingAverage.RunningMean

`running_mean` of `filter/filter.py`; `filter/filter_offline.py` has the same text. The mean over a
sliding window, from the running totals of the array with a zero in front. NumPy totals `int16`
in the signed and `uint8` in the unsigned integer type of the platform, of `b` bits, and both the
totals and their differences wrap. The division is exact here.

* `prefixMean_ok`: one entry for each window, from the wrapped sum over it.
* `running_mean_exact`: whatever the totals do, the entries are the means if the sums over the
  windows fit.
-/

namespace SoundScreen
namespace MovingAverage

open MovingSum

/-- `(c[w:] - c[:-w]) / w` for the totals `c` of the elements with a zero in front, in words of
`b` bits that stand for the integers `total`. -/
def prefixMean {b : Nat} (total : BitVec b → Int) (elements : List Int) (w : Nat) :
    Except PyError (List ℚ) := do
  let totals := cumsum (0 :: elements.map (BitVec.ofInt b))
  let sums ← subtract (totals.drop w) (takeTo totals w)
  return sums.map fun s => (total s : ℚ) / w

def running_mean (b : Nat) (d : DType) (x : List d.Elem) (windowSize : Nat) :
    Except PyError (List ℚ) :=
  prefixMean (b := b) d.total (x.map d.value) windowSize

theorem prefixMean_ok {b : Nat} (total : BitVec b → Int) (elements : List Int) {w : Nat}
    (hw : 0 < w) : prefixMean total elements w =
      .ok ((List.range (elements.length + 1 - w)).map fun i =>
        (total (BitVec.ofInt b (windowSum w elements i)) : ℚ) / w) := by
  have hlen : (cumsum (0 :: elements.map (BitVec.ofInt b))).length = elements.length + 1 := by
    rw [cumsum_length, List.length_cons, List.length_map]
  have hsub : subtract ((cumsum (0 :: elements.map (BitVec.ofInt b))).drop w)
      (takeTo (cumsum (0 :: elements.map (BitVec.ofInt b))) w) =
        .ok ((List.range (elements.length + 1 - w)).map fun i =>
          BitVec.ofInt b (windowSum w elements i)) := by
    rw [takeTo_of_pos _ hw, hlen, ← wrapped_totals_sub]
    refine subtract_of_length ?_
    rw [List.length_drop, List.length_take]
    omega
  simp only [prefixMean, hsub, bind, Except.bind, List.map_map]
  rfl

theorem prefixMean_entries {b : Nat} (total : BitVec b → Int) (elements : List Int) {w : Nat}
    (hw : 0 < w) (hle : w ≤ elements.length) : ∃ m, prefixMean total elements w = .ok m ∧
      m.length = elements.length - w + 1 ∧ ∀ i, i + w ≤ elements.length →
        m[i]? = some ((total (BitVec.ofInt b (windowSum w elements i)) : ℚ) / w) := by
  refine ⟨_, prefixMean_ok total elements hw, ?_, ?_⟩
  · rw [List.length_map, List.length_range]
    omega
  · intro i hi
    rw [List.getElem?_map, List.getElem?_range (by omega)]
    rfl

/-- The elements of an `int16` array, as integers, are in its range. -/
theorem int16_bounds {x : List Int16} :
    ∀ z ∈ x.map Int16.toInt, -2 ^ 15 ≤ z ∧ z ≤ 2 ^ 15 - 1 := by
  intro z hz
  obtain ⟨y, -, rfl⟩ := List.mem_map.mp hz
  have := y.le_toInt
  have := y.toInt_lt
  omega

/-- A sum over `w` elements of type `int16` fits into `b` bits, if `w` of the least do. -/
theorem int16_sum_fits {b w i : Nat} {x : List Int16} (hw : 0 < w)
    (hb : w * 2 ^ 15 ≤ 2 ^ (b - 1)) (hi : i + w ≤ x.length) :
    (BitVec.ofInt b (windowSum w (x.map Int16.toInt) i)).toInt =
      windowSum w (x.map Int16.toInt) i := by
  have hpos : 0 < b := by
    by_contra h0
    rw [show b - 1 = 0 by omega] at hb
    omega
  have hbounds := windowSum_bounds int16_bounds ((List.length_map Int16.toInt).symm ▸ hi)
  have hpow : ((2 ^ (b - 1) : Nat) : Int) = 2 ^ (b - 1) := by push_cast; rfl
  exact (toInt_ofInt_iff hpos _).mpr ⟨by omega, by omega⟩

/-- **The totals may overflow.** For `int16` elements and `1 ≤ w ≤ len(x)` with `w * 2 ^ 15` below
`2 ^ (b - 1)`, the result has `len(x) - w + 1` entries and entry `i` is the mean of the `w`
elements from `i` on. -/
theorem running_mean_exact (b : Nat) (x : List Int16) (w : Nat) (h₁ : 1 ≤ w) (hw : w ≤ x.length)
    (hb : w * 2 ^ 15 < 2 ^ (b - 1)) :
    ∃ m, running_mean b .int16 x w = .ok m ∧ m.length = x.length - w + 1 ∧
      ∀ i, i + w ≤ x.length →
        m[i]? = some ((((x.drop i).take w).map Int16.toInt).sum / w : ℚ) := by
  have hlen : (x.map Int16.toInt).length = x.length := List.length_map _
  obtain ⟨m, hm, hmlen, hget⟩ :=
    prefixMean_entries (DType.total .int16) (x.map Int16.toInt) h₁ (hlen.symm ▸ hw)
  refine ⟨m, hm, by rw [hmlen, hlen], ?_⟩
  intro i hi
  have hsum : windowSum w (x.map Int16.toInt) i = (((x.drop i).take w).map Int16.toInt).sum := by
    rw [windowSum, List.map_take, List.map_drop]
  -- the sum over one window fits, whatever the totals did
  have hfits := int16_sum_fits h₁ hb.le hi
  rw [hget i (hlen.symm ▸ hi), DType.total, hfits, hsum]

/-- In 18 bits the total of five loud elements has wrapped. -/
theorem running_mean_exact_wrapped :
    ∃ m, running_mean 18 .int16 [32767, 32767, 32767, 32767, 32767] 2 = .ok m ∧ m.length = 4 := by
  obtain ⟨m, hm, hlen, -⟩ := running_mean_exact 18 [32767, 32767, 32767, 32767, 32767] 2
    (by decide) (by decide) (by decide)
  exact ⟨m, hm, hlen⟩

end MovingAverage
end SoundScreen
