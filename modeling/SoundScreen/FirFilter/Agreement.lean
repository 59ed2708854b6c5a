import SoundScreen.FirFilter.Fast

/-!
# SoundScreen.FirFilter.Agreement

The two filters of `FIR_filter/jfastfir.cpp` side by side, as `Demo/demo.cpp` uses them: both are
given the same kernel and the same samples. The arithmetic is exact, and `memcpy` copies parts of a
buffer that overlap as `memmove` does.

* `filters_agree_iff`: apart from how late they are, they give the same for all streams if and only
  if the kernel is the same from both ends.
-/

namespace SoundScreen
namespace FirFilter

open JFastFIRFilter (power_of_two)
open KissFft (FirCfg Libm Usable filtered INT_MAX)

variable {R : Type*} [Field R]

/-! ## The source -/

/-- `setKernel` of the slow filter, then `Update` for each chunk. -/
def slow_filter (f : JSlowFIRFilter R) (imp_responce : List R) (chunks : List (List R)) :
    Option (List R) := do
  let (_, outs) ← Chunks.run JSlowFIRFilter.Update (f.setKernel imp_responce) chunks
  return outs.flatten

/-- `setKernel` of the fast filter, then `Update` for each chunk. -/
def fast_filter (lib : Libm R) (f : JFastFIRFilter R) (imp_responce : List R)
    (memory : FirCfg R) (chunks : List (List R)) : Option (List R) := do
  let f ← JFastFIRFilter.setKernel lib f imp_responce memory
  let (_, outs) ← Chunks.run JFastFIRFilter.Update f chunks
  return outs.flatten

/-! ## The size -/

section Size

theorem le_power_of_two (n : Nat) : n ≤ power_of_two n := by
  rw [power_of_two]
  split
  · omega
  · exact Nat.le_pow_clog Nat.one_lt_two n

theorem power_of_two_twice (n : Nat) : power_of_two (power_of_two n) = power_of_two n := by
  by_cases hzero : n = 0
  · rw [hzero]
    rfl
  · have hpow : power_of_two n = 2 ^ Nat.clog 2 n := if_neg hzero
    rw [hpow, power_of_two, if_neg (Nat.two_pow_pos _).ne', Nat.clog_pow 2 _ Nat.one_lt_two]

theorem power_of_two_even {n : Nat} (h : 2 ≤ n) : power_of_two n % 2 = 0 := by
  have hclog := Nat.clog_pos Nat.one_lt_two h
  rw [power_of_two, if_neg (by omega), ← Nat.sub_add_cancel hclog, pow_succ]
  exact Nat.mul_mod_left _ 2

theorem power_of_two_le {n k : Nat} (h : n ≤ 2 ^ k) : power_of_two n ≤ 2 ^ k := by
  rw [power_of_two]
  split
  · exact Nat.zero_le _
  · exact Nat.pow_le_pow_right Nat.two_pos (Nat.clog_le_of_le_pow h)

omit [Field R] in
/-- Every kernel of up to `2 ^ 28` taps can be used with the size that is a "rule of thumb". -/
theorem thumb_usable {imp_responce : List R} (h : imp_responce ≠ [])
    (hint : imp_responce.length ≤ 2 ^ 28) :
    Usable imp_responce (power_of_two (power_of_two (imp_responce.length * 4))) := by
  have hpos := List.length_pos_of_ne_nil h
  have hle := le_power_of_two (imp_responce.length * 4)
  have hge : power_of_two (imp_responce.length * 4) ≤ 2 ^ 30 := power_of_two_le (by omega)
  have hne : power_of_two (imp_responce.length * 4) ≠ 0 := by omega
  rw [power_of_two_twice]
  refine ⟨.inr ⟨power_of_two_even (by omega), by omega⟩, ?_⟩
  rw [KissFft.used_nfft, if_neg hne]
  simp only [INT_MAX]
  omega

end Size

/-! ## Both filters -/

section Both

variable {lib : Libm R} {imp_responce : List R}

theorem slow_filter_eq (g : JSlowFIRFilter R) (h : imp_responce ≠ []) (chunks : List (List R)) :
    slow_filter g imp_responce chunks = some (Chunks.part (JSlowFIRFilter.reply imp_responce
      (KissFft.sequence chunks.flatten)) 0 chunks.flatten.length) := by
  obtain ⟨g', outs, hrun, -, hflat, -⟩ :=
    Chunks.run_spec (JSlowFIRFilter.After.step imp_responce _) (fun _ _ => trivial)
      (Chunks.partOf_getD chunks.flatten 0) (JSlowFIRFilter.setKernel_after g _ h)
  rw [slow_filter, hrun]
  exact congrArg some hflat

theorem fast_filter_eq {f : JFastFIRFilter R} (hf : JFastFIRFilter.Reached lib f)
    (h : imp_responce ≠ []) (hint : imp_responce.length ≤ 2 ^ 28) (memory : FirCfg R)
    {chunks : List (List R)} (hchunks : ∀ chunk ∈ chunks, JFastFIRFilter.Sized chunk) :
    fast_filter lib f imp_responce memory chunks = some (Chunks.part
      (Fir.delay (power_of_two (imp_responce.length * 4)) (filtered imp_responce
        (KissFft.sequence chunks.flatten))) 0 chunks.flatten.length) := by
  have hpos := List.length_pos_of_ne_nil h
  have hle := le_power_of_two (imp_responce.length * 4)
  obtain ⟨m, f', hset, hnfft, hafter⟩ :=
    JFastFIRFilter.setKernelSize_after hf h (thumb_usable h hint) memory
  have hsize := JFastFIRFilter.setKernelSize_nfft h (by rw [power_of_two_twice]; omega) hset
  rw [power_of_two_twice, hnfft] at hsize
  obtain ⟨f'', outs, hrun, -, hflat, -⟩ :=
    Chunks.run_spec (JFastFIRFilter.After.step lib imp_responce m _ _ _) hchunks
      (Chunks.partOf_getD chunks.flatten 0) (hafter _)
  rw [fast_filter, JFastFIRFilter.setKernel, hset, Option.bind_eq_bind, Option.bind_some, hrun,
    ← hsize]
  exact congrArg some hflat

omit [Field R] in
theorem part_getElem? (y : Nat → R) {n k : Nat} (hk : k < n) :
    (Chunks.part y 0 n)[k]? = some (y k) := by
  rw [Chunks.part, List.getElem?_map, List.getElem?_range hk, Option.map_some, Nat.zero_add]

/-- When all taps are in the stream, the slow filter gives the convolution with the kernel the other
way round. -/
theorem slow_reply (h : imp_responce ≠ []) (x : Nat → R) (t : Nat) :
    JSlowFIRFilter.reply imp_responce x (t + (imp_responce.length - 1)) =
      filtered imp_responce.reverse x t := by
  have hpos := List.length_pos_of_ne_nil h
  rw [JSlowFIRFilter.reply, show t + (imp_responce.length - 1) + 1 = imp_responce.length + t by
    omega, filtered, Fir.valid_delay, filtered]

/-- A kernel shows in what it makes of a single one. -/
theorem filtered_single (kernel : List R) {t : Nat} (ht : t < kernel.length) :
    filtered kernel (fun k => if k = kernel.length - 1 then 1 else 0) t =
      KissFft.sequence kernel t := by
  rw [filtered, Fir.valid, Finset.sum_eq_single t]
  · rw [if_pos (by omega), mul_one]
  · intro i hi hne
    have hi := Finset.mem_range.mp hi
    rw [if_neg (by omega), mul_zero]
  · intro hout
    exact absurd (Finset.mem_range.mpr ht) hout

theorem eq_of_sequence {xs ys : List R} (hlength : xs.length = ys.length)
    (h : ∀ t < xs.length, KissFft.sequence xs t = KissFft.sequence ys t) : xs = ys := by
  refine List.ext_getElem hlength ?_
  intro t hx hy
  have heq := h t hx
  rwa [KissFft.sequence, KissFft.sequence, List.getD_eq_getElem _ _ hx,
    List.getD_eq_getElem _ _ hy] at heq

/-- **The two filters.** They are given the same kernel, of up to `2 ^ 28` taps, and the same
samples, each in chunks of its own. From where all taps are in the stream, in exact arithmetic they
give the same for all streams if and only if the kernel reads the same backwards. -/
theorem filters_agree_iff {f : JFastFIRFilter R} (hf : JFastFIRFilter.Reached lib f)
    (g : JSlowFIRFilter R) (h : imp_responce ≠ []) (hint : imp_responce.length ≤ 2 ^ 28)
    (memory : FirCfg R) :
    (∀ chunks chunks' : List (List R),
      (∀ chunk ∈ chunks, chunk ≠ [] ∧ chunk.length * 3 ≤ INT_MAX) →
      (∀ chunk ∈ chunks', chunk.length ≤ INT_MAX) → chunks.flatten = chunks'.flatten →
      ∃ fast slow, fast_filter lib f imp_responce memory chunks = some fast ∧
        slow_filter g imp_responce chunks' = some slow ∧
        ∀ t, t + power_of_two (imp_responce.length * 4) < chunks.flatten.length →
          fast[t + power_of_two (imp_responce.length * 4)]? =
            slow[t + (imp_responce.length - 1)]?) ↔
      imp_responce.reverse = imp_responce := by
  have hpos := List.length_pos_of_ne_nil h
  have hle := le_power_of_two (imp_responce.length * 4)
  generalize hnfft : power_of_two (imp_responce.length * 4) = nfft at hle ⊢
  constructor
  · intro hagree
    -- a single one at the last tap, and then as many zeros as the fast filter is late
    let single : List R :=
      List.ofFn fun k : Fin (2 * nfft) => if k.val = imp_responce.length - 1 then 1 else 0
    have hsingle : ∀ k < 2 * nfft, KissFft.sequence single k =
        if k = imp_responce.length - 1 then 1 else 0 := by
      intro k hk
      rw [KissFft.sequence, List.getD_eq_getElem _ _ (by rw [List.length_ofFn]; exact hk),
        List.getElem_ofFn]
    have hlength : single.length = 2 * nfft := List.length_ofFn
    -- they are given one by one
    have hflat : (single.map fun sample => [sample]).flatten = single := by
      rw [← List.flatMap_def, List.flatMap_singleton']
    have hchunk : ∀ chunk ∈ single.map fun sample => [sample],
        chunk ≠ [] ∧ chunk.length * 3 ≤ INT_MAX := by
      intro chunk hchunk
      obtain ⟨sample, -, rfl⟩ := List.mem_map.mp hchunk
      exact ⟨List.cons_ne_nil _ _, show 1 * 3 ≤ INT_MAX by decide⟩
    have hchunk' : ∀ chunk ∈ single.map fun sample => [sample], chunk.length ≤ INT_MAX :=
      fun chunk hmem => Nat.le_trans (Nat.le_mul_of_pos_right _ (by decide)) (hchunk chunk hmem).2
    obtain ⟨fast, slow, hfast, hslow, hsame⟩ := hagree _ _ hchunk hchunk' rfl
    rw [fast_filter_eq hf h hint memory hchunk, hnfft] at hfast
    rw [slow_filter_eq g h] at hslow
    cases hfast
    cases hslow
    rw [hflat, hlength] at hsame
    refine eq_of_sequence List.length_reverse ?_
    intro t ht
    rw [List.length_reverse] at ht
    have htap := hsame t (by omega)
    rw [part_getElem? _ (by omega), part_getElem? _ (by omega), slow_reply h,
      Nat.add_comm t nfft, Fir.delay_add] at htap
    have htap := Option.some.inj htap
    have hfiltered : ∀ kernel : List R, kernel.length = imp_responce.length →
        filtered kernel (KissFft.sequence single) t = KissFft.sequence kernel t := by
      intro kernel hkernel
      rw [← filtered_single kernel (by omega)]
      refine Fir.valid_congr fun a _ ha => ?_
      rw [hsingle a (by omega), hkernel]
    rw [← hfiltered _ List.length_reverse, ← hfiltered imp_responce rfl, htap]
  · intro hreverse chunks chunks' hchunks _ hflat
    refine ⟨_, _, fast_filter_eq hf h hint memory hchunks, slow_filter_eq g h chunks', ?_⟩
    intro t ht
    rw [← hflat, hnfft, part_getElem? _ ht, part_getElem? _ (by omega), slow_reply h, hreverse,
      Nat.add_comm t nfft, Fir.delay_add]

theorem filters_agree_two_taps :
    ∃ f, (∀ chunks chunks' : List (List ℝ),
      (∀ chunk ∈ chunks, chunk ≠ [] ∧ chunk.length * 3 ≤ INT_MAX) →
      (∀ chunk ∈ chunks', chunk.length ≤ INT_MAX) → chunks.flatten = chunks'.flatten →
      ∃ fast slow, fast_filter Libm.real f [1, 2] default chunks = some fast ∧
        slow_filter ⟨[], ⟨0, fun _ => 0⟩, 0⟩ [1, 2] chunks' = some slow ∧
        ∀ t, t + power_of_two ([1, (2 : ℝ)].length * 4) < chunks.flatten.length →
          fast[t + power_of_two ([1, (2 : ℝ)].length * 4)]? =
            slow[t + ([1, (2 : ℝ)].length - 1)]?) ↔
      [1, (2 : ℝ)].reverse = [1, 2] := by
  obtain ⟨f, hf⟩ := JFastFIRFilter.exists_reached Libm.real default
  exact ⟨f, filters_agree_iff hf ⟨[], ⟨0, fun _ => 0⟩, 0⟩ (List.cons_ne_nil 1 [2])
    (show [1, (2 : ℝ)].length ≤ 2 ^ 28 by decide) default⟩

end Both

end FirFilter
end SoundScreen
