import SoundScreen.AuxIVA.Regular

/-!
# SoundScreen.AuxIVA.Auxiliary

The auxiliary variables `r_k` of `unmix`. They are set to zero once for a frame, outside the loops
over `n` and `k`; line 50 adds to them and line 55 replaces the sum by its root.

* `passes_divisors`: after some passes `r_k[j]` is non-zero exactly for the `j` they were for.
* `auxiliary_iff`: the divisor of line 60 is the root of the sum of squares in the first update of
  a frame, and never in the second.
-/

namespace SoundScreen
namespace AuxIVA

open Outcome

variable {K : Type} [Field K] [LinearOrder K]

/-- The value of `r_k[k]` after line 55, from the state at the start of the pass. -/
def divisor (S : Sqrt K) (x : Fin FREQUENCY_BINS → Vec2 K) (st : Vec2 K × Statics K)
    (k : Fin NUM_INPUTS) : K :=
  S.sqrt (accumulate x st.2.W k (st.1 k))

/-- The passes of a call before pass `(n, k)`, as values of `k`. -/
def before (n : Nat) (k : Fin NUM_INPUTS) : List (Fin NUM_INPUTS) :=
  ((List.range UPDATES_PER_FRAME).flatMap fun _ => List.finRange NUM_INPUTS).take
    (n * NUM_INPUTS + k)

theorem mem_before {n : Nat} (hn : n < UPDATES_PER_FRAME) (k : Fin NUM_INPUTS) :
    k ∈ before n k ↔ n ≠ 0 := by
  unfold UPDATES_PER_FRAME at hn
  have h : ∀ n < 2, ∀ k : Fin NUM_INPUTS, k ∈ before n k ↔ n ≠ 0 := by decide
  exact h n hn k

/-! ## One pass -/

theorem update_source_ok {S : Sqrt K} {x : Fin FREQUENCY_BINS → Vec2 K}
    {st st' : Vec2 K × Statics K} {k : Fin NUM_INPUTS} (h : update_source S x st k = .ok st') :
    st'.1 = Function.update st.1 k (divisor S x st k) ∧
      (List.finRange FREQUENCY_BINS).foldlM (update_bin S x k (divisor S x st k)) st.2 =
        .ok st'.2 := by
  cases hbins : (List.finRange FREQUENCY_BINS).foldlM
      (update_bin S x k (divisor S x st k)) st.2 with
  | error e =>
    have hfail : update_source S x st k = .error e := by
      unfold update_source
      rw [← divisor]
      simp only [hbins]
      rfl
    cases hfail.symm.trans h
  | ok statics =>
    have hok : update_source S x st k =
        .ok (Function.update st.1 k (divisor S x st k), statics) := by
      unfold update_source
      rw [← divisor]
      simp only [hbins]
      rfl
    cases hok.symm.trans h
    exact ⟨rfl, rfl⟩

theorem divisor_ne_zero {S : Sqrt K} {x : Fin FREQUENCY_BINS → Vec2 K} {st st' : Vec2 K × Statics K}
    {k : Fin NUM_INPUTS} (h : update_source S x st k = .ok st') : divisor S x st k ≠ 0 := by
  intro h0
  have hfail : update_bin S x k (divisor S x st k) st.2 0 = .error (.line60 k 0) := if_pos h0
  have hbins := (update_source_ok h).2
  rw [List.finRange_succ, List.foldlM_cons, hfail] at hbins
  cases hbins

theorem update_source_row {S : Sqrt K} {x : Fin FREQUENCY_BINS → Vec2 K}
    {st st' : Vec2 K × Statics K} {k j : Fin NUM_INPUTS} (h : update_source S x st k = .ok st')
    (hj : j ≠ k) (freq : Fin FREQUENCY_BINS) : st'.2.W freq j = st.2.W freq j := by
  have hbin : ∀ (a : Statics K) (b : Fin FREQUENCY_BINS), a.W freq j = st.2.W freq j →
      Ends (fun a' => a'.W freq j = st.2.W freq j) (fun _ => True)
        (update_bin S x k (divisor S x st k) a b) := by
    intro a b ha
    have hrow : ∀ w, Function.update a.W b ((a.W b).updateRow k w) freq j = st.2.W freq j := by
      intro w
      by_cases hb : freq = b
      · subst hb
        rw [Function.update_self, Matrix.updateRow_ne hj, ha]
      · rw [Function.update_of_ne hb, ha]
    unfold update_bin
    dsimp only
    split
    · exact .error trivial
    split
    · exact .error trivial
    split
    · exact .error trivial
    exact .ok (hrow _)
  rcases Ends.foldlM hbin (List.finRange FREQUENCY_BINS) (a := st.2) rfl with
    ⟨a, hok, ha⟩ | ⟨e, hfail, -⟩
  · cases (update_source_ok h).2.symm.trans hok
    exact ha
  · cases (update_source_ok h).2.symm.trans hfail

/-! ## Passes -/

/-- After the passes `ks` those auxiliary variables are non-zero that were or have had a pass. -/
theorem passes_divisors {S : Sqrt K} {x : Fin FREQUENCY_BINS → Vec2 K} {ks : List (Fin NUM_INPUTS)}
    {st st' : Vec2 K × Statics K} (h : ks.foldlM (update_source S x) st = .ok st')
    (j : Fin NUM_INPUTS) : st'.1 j = 0 ↔ st.1 j = 0 ∧ j ∉ ks := by
  induction ks generalizing st with
  | nil =>
    cases h
    simp
  | cons k ks ih =>
    rw [List.foldlM_cons] at h
    cases hk : update_source S x st k with
    | error e =>
      rw [hk] at h
      cases h
    | ok mid =>
      rw [hk] at h
      have hmid := (update_source_ok hk).1
      rw [ih h, hmid, List.mem_cons]
      by_cases hj : j = k
      · subst hj
        simp [divisor_ne_zero hk]
      · simp [hj]

variable [IsStrictOrderedRing K]

theorem passes_nonneg {S : Sqrt K} {x : Fin FREQUENCY_BINS → Vec2 K} {ks : List (Fin NUM_INPUTS)}
    {st st' : Vec2 K × Statics K} (h : ks.foldlM (update_source S x) st = .ok st')
    (hst : ∀ j, 0 ≤ st.1 j) (j : Fin NUM_INPUTS) : 0 ≤ st'.1 j := by
  have hpass : ∀ (a : Vec2 K × Statics K) (k : Fin NUM_INPUTS), (∀ j, 0 ≤ a.1 j) →
      Ends (fun a' => ∀ j, 0 ≤ a'.1 j) (fun _ => True) (update_source S x a k) := by
    intro a k ha
    cases hok : update_source S x a k with
    | error e => exact .error trivial
    | ok a' =>
      refine .ok ?_
      intro j
      rw [(update_source_ok hok).1]
      by_cases hj : j = k
      · subst hj
        rw [Function.update_self]
        exact S.sqrt_nonneg _ (accumulate_nonneg x a.2.W j (ha j))
      · rw [Function.update_of_ne hj]
        exact ha j
  rcases Ends.foldlM hpass ks hst with ⟨a, hok, ha⟩ | ⟨e, hfail, -⟩
  · cases h.symm.trans hok
    exact ha j
  · cases h.symm.trans hfail

/-- The square of the divisor is the sum of squares, and what the variable held before. -/
theorem divisor_sq (S : Sqrt K) (x : Fin FREQUENCY_BINS → Vec2 K) {st : Vec2 K × Statics K}
    {k : Fin NUM_INPUTS} (h : 0 ≤ st.1 k) :
    divisor S x st k ^ 2 = st.1 k + ∑ freq, (st.2.W freq k ⬝ᵥ x freq) ^ 2 := by
  have hsum : (squares x st.2.W k).sum = ∑ freq, (st.2.W freq k ⬝ᵥ x freq) ^ 2 := by
    simp only [squares, sq_abs, Fin.sum_univ_def]
  rw [pow_two, divisor, S.mul_self_sqrt _ (accumulate_nonneg x st.2.W k h), accumulate_eq, hsum]

/-- A pass over regular static variables in which some bin is heard succeeds. -/
theorem update_source_heard (S : Sqrt K) {x : Fin FREQUENCY_BINS → Vec2 K} {st : Vec2 K × Statics K}
    {k : Fin NUM_INPUTS} (h : Regular st.2) (hr : st.1 k = 0) {freq : Fin FREQUENCY_BINS}
    (hx : st.2.W freq k ⬝ᵥ x freq ≠ 0) :
    ∃ st', update_source S x st k = .ok st' ∧ Regular st'.2 := by
  have hne : divisor S x st k ≠ 0 := by
    rw [divisor, hr]
    exact (unmix_first_divisor S x st.2.W k).mpr ⟨freq, hx⟩
  have hpos : 0 < divisor S x st k :=
    lt_of_le_of_ne (S.sqrt_nonneg _ (accumulate_nonneg x st.2.W k hr.ge)) hne.symm
  have hbin : ∀ (a : Statics K) (b : Fin FREQUENCY_BINS), Regular a →
      Ends Regular (fun _ => False) (update_bin S x k (divisor S x st k) a b) := by
    intro a b ha
    obtain ⟨a', hok, ha'⟩ := update_bin_regular S x k hpos ha b
    exact .inl ⟨a', hok, ha'⟩
  rcases Ends.foldlM hbin (List.finRange FREQUENCY_BINS) h with ⟨a, hok, ha⟩ | ⟨_, _, hfalse⟩
  · refine ⟨(Function.update st.1 k (divisor S x st k), a), ?_, ha⟩
    unfold update_source
    rw [← divisor]
    simp only [hok]
    rfl
  · exact hfalse.elim

/-- **The auxiliary variable.** For all static variables on entry, every frame and every pass
`(n, k)` that a call reaches: the square of the divisor of line 60 is the sum over the bins of
`(w_k * x) ^ 2`, for row `k` of the current `W`, exactly in the first update of the frame. -/
theorem auxiliary_iff (S : Sqrt K) (x : Fin FREQUENCY_BINS → Vec2 K) (statics : Statics K) (n : Nat)
    (hn : n < UPDATES_PER_FRAME) (k : Fin NUM_INPUTS) (st : Vec2 K × Statics K)
    (h : (before n k).foldlM (update_source S x) (fun _ => 0, statics) = .ok st) :
    (divisor S x st k ^ 2 = ∑ freq, (st.2.W freq k ⬝ᵥ x freq) ^ 2 ↔ n = 0) ∧
    divisor S x st k ^ 2 = st.1 k + ∑ freq, (st.2.W freq k ⬝ᵥ x freq) ^ 2 := by
  have hsq := divisor_sq S x (passes_nonneg h (fun _ => le_rfl) k)
  have hzero : st.1 k = 0 ↔ n = 0 := by
    rw [passes_divisors h k, mem_before hn k]
    simp
  refine ⟨?_, hsq⟩
  rw [hsq, add_eq_right, hzero]

/-- A frame heard alike by both microphones. -/
def both_sided : Fin FREQUENCY_BINS → Vec2 ℝ := fun _ => ![1, 1]

/-- The start of a call with identity matrices. -/
def identities : Vec2 ℝ × Statics ℝ := (fun _ => 0, ⟨fun _ => 1, fun _ _ => 1⟩)

theorem identities_hear (k : Fin NUM_INPUTS) : identities.2.W 0 k ⬝ᵥ both_sided 0 ≠ 0 := by
  match k with
  | 0 => simp [identities, both_sided, dotProduct, Matrix.one_apply]
  | 1 => simp [identities, both_sided, dotProduct, Matrix.one_apply]

theorem identities_first_pass :
    ∃ st, update_source real_sqrt both_sided identities 0 = .ok st ∧ Regular st.2 :=
  update_source_heard real_sqrt (regular_identity : Regular identities.2)
    (show identities.1 0 = 0 from rfl) (identities_hear 0)

/-- Pass `(0, 1)`, which starts from what pass `(0, 0)` has left. -/
theorem auxiliary_iff_first : ∃ st,
    (before 0 1).foldlM (update_source real_sqrt both_sided) identities = .ok st ∧
    divisor real_sqrt both_sided st 1 ^ 2 = ∑ freq, (st.2.W freq 1 ⬝ᵥ both_sided freq) ^ 2 := by
  obtain ⟨st, hok, -⟩ := identities_first_pass
  have hpasses : (before 0 1).foldlM (update_source real_sqrt both_sided) identities = .ok st := by
    rw [show before 0 1 = [0] from rfl]
    simp only [List.foldlM_cons, List.foldlM_nil, hok, bind, Except.bind]
    rfl
  exact ⟨st, hpasses, (auxiliary_iff real_sqrt both_sided identities.2 0 (by decide) 1 st
    hpasses).1.mpr rfl⟩

/-- From identity matrices, the divisor of pass `(1, 0)` still holds that of pass `(0, 0)`. -/
theorem second_update_mixes : ∃ st,
    (before 1 0).foldlM (update_source real_sqrt both_sided) identities = .ok st ∧
    divisor real_sqrt both_sided st 0 ^ 2 ≠ ∑ freq, (st.2.W freq 0 ⬝ᵥ both_sided freq) ^ 2 := by
  obtain ⟨st₁, h₁, hreg₁⟩ := identities_first_pass
  -- the first pass leaves what the second reads as it was
  have hrow : st₁.2.W 0 1 ⬝ᵥ both_sided 0 ≠ 0 := by
    rw [update_source_row h₁ (by decide) 0]
    exact identities_hear 1
  have hr : st₁.1 1 = 0 := by
    rw [(update_source_ok h₁).1, Function.update_of_ne (by decide)]
    rfl
  obtain ⟨st₂, h₂, -⟩ := update_source_heard real_sqrt hreg₁ hr hrow
  have hpasses : (before 1 0).foldlM (update_source real_sqrt both_sided) identities =
      .ok st₂ := by
    rw [show before 1 0 = [0, 1] from rfl]
    simp only [List.foldlM_cons, List.foldlM_nil, h₁, h₂, bind, Except.bind]
    rfl
  refine ⟨st₂, hpasses, ?_⟩
  have hne : st₂.1 0 ≠ 0 := by
    rw [ne_eq, passes_divisors hpasses 0]
    exact fun h => h.2 (by decide)
  rw [divisor_sq real_sqrt both_sided (passes_nonneg hpasses (fun _ => le_rfl) 0), ne_eq,
    add_eq_right]
  exact hne

end AuxIVA
end SoundScreen
