import Mathlib.Data.Nat.Factors
import Mathlib.Data.Nat.Prime.Basic
import Mathlib.Data.Nat.Sqrt
import Mathlib.NumberTheory.SmoothNumbers
import Mathlib.Tactic.IntervalCases

/-!
# SoundScreen.KissFft.Factor

How `kiss_fft.c` splits a length into radices, and how it looks for a length that splits well.

* `kf_factor_chain`: the pairs in `facbuf` are `p1, m1, p2, m2, ...` as its comment says.
* `kf_factor_radix`: every radix is 4 or a prime, and there is room for all of them.
* `kiss_fft_next_fast_size_isLeast`: the size found is the smallest one that splits, if an `int` can
  hold it.
-/

namespace SoundScreen
namespace KissFft

/-! ## The source -/

def MAXFACTORS : Nat := 32

/-- `switch (p)`. -/
def next_radix : Nat → Nat
  | 4 => 2
  | 2 => 3
  | p => p + 2

/-- `while (n % p)`, at most `fuel` turns of it. -/
def search_radix (floor_sqrt n : Nat) : Nat → Nat → Nat
  | 0, p => p
  | fuel + 1, p =>
    if n % p = 0 then p
    else
      let p := next_radix p
      search_radix floor_sqrt n fuel (if floor_sqrt < p then n else p)

/-- `do { ... } while (n > 1)`, at most `fuel` turns of it. -/
def factor_loop (floor_sqrt : Nat) : Nat → Nat → Nat → List (Nat × Nat)
  | 0, _, _ => []
  | fuel + 1, n, p =>
    let p := search_radix floor_sqrt n (floor_sqrt + 3) p
    let n := n / p
    (p, n) :: if 1 < n then factor_loop floor_sqrt fuel n p else []

/-- What `kf_factor` leaves in `facbuf`, in pairs. -/
def kf_factor (n : Nat) : List (Nat × Nat) := factor_loop (Nat.sqrt n) n n 4

/-- `while ((m % d) == 0) m /= d`, at most `fuel` turns of it. -/
def divide_out (d : Nat) : Nat → Nat → Nat
  | 0, m => m
  | fuel + 1, m => if m % d = 0 then divide_out d fuel (m / d) else m

def INT_MAX : Nat := 2147483647

/-- `while (1)`, at most `fuel` turns of it; there is no result when `n++` overflows. -/
def next_fast_size_loop : Nat → Nat → Option Nat
  | 0, _ => none
  | fuel + 1, n =>
    let m := n
    let m := divide_out 2 m m
    let m := divide_out 3 m m
    let m := divide_out 5 m m
    if m ≤ 1 then some n
    else if n = INT_MAX then none
    else next_fast_size_loop fuel (n + 1)

/-- There is a power of two among `n` and the `n` numbers that follow. -/
def kiss_fft_next_fast_size (n : Nat) : Option Nat := next_fast_size_loop (n + 1) n

/-! ## One radix -/

/-- The radices in the order in which they are tried. -/
def IsRadix (p : Nat) : Prop := p = 4 ∨ p = 2 ∨ 3 ≤ p ∧ p % 2 = 1

/-- None of the radices before `p` divides `n`. -/
structure Tried (p n : Nat) : Prop where
  four : p ≠ 4 → ¬4 ∣ n
  less : p ≠ 4 → ∀ d, 2 ≤ d → d < p → ¬d ∣ n

theorem Tried.of_dvd {p n k : Nat} (h : Tried p n) (hk : k ∣ n) : Tried p k where
  four hp hd := h.four hp (hd.trans hk)
  less hp d hd hlt hdk := h.less hp d hd hlt (hdk.trans hk)

theorem tried_four (n : Nat) : Tried 4 n :=
  ⟨fun h => absurd rfl h, fun h => absurd rfl h⟩

theorem next_radix_odd {p : Nat} (h : p % 2 = 1) : next_radix p = p + 2 := by
  unfold next_radix
  split
  · contradiction
  · contradiction
  · rfl

theorem IsRadix.next {p : Nat} (h : IsRadix p) : IsRadix (next_radix p) ∧ next_radix p ≠ 4 := by
  rcases h with rfl | rfl | ⟨hle, hodd⟩
  · exact ⟨.inr (.inl rfl), by decide⟩
  · exact ⟨.inr (.inr ⟨by decide, by decide⟩), by decide⟩
  · rw [next_radix_odd hodd]
    exact ⟨.inr (.inr ⟨by omega, by omega⟩), by omega⟩

theorem Tried.next {p n : Nat} (h : Tried p n) (hp : IsRadix p) (hn : ¬p ∣ n) :
    Tried (next_radix p) n := by
  rcases hp with rfl | rfl | ⟨hle, hodd⟩
  · exact ⟨fun _ => hn, fun _ d hd hlt => absurd hlt (by simp only [next_radix]; omega)⟩
  · refine ⟨fun _ => h.four (by decide), ?_⟩
    intro _ d hd hlt
    obtain rfl : d = 2 := by
      simp only [next_radix] at hlt
      omega
    exact hn
  · have hne : p ≠ 4 := by
      rintro rfl
      contradiction
    rw [next_radix_odd hodd]
    refine ⟨fun _ => h.four hne, ?_⟩
    intro _ d hd hlt hdn
    rcases Nat.lt_or_ge d p with hdp | hdp
    · exact h.less hne d hd hdp hdn
    · rcases Nat.eq_or_lt_of_le hdp with rfl | hgt
      · exact hn hdn
      · -- the even number after `p`
        obtain rfl : d = p + 1 := by omega
        exact h.less hne 2 (Nat.le_refl 2) (by omega)
          ((Nat.dvd_of_mod_eq_zero (by omega)).trans hdn)

/-- A radix that divides, when none before it does, is 4 or a prime. -/
theorem Tried.prime {p n : Nat} (h : Tried p n) (hp : IsRadix p) (hn : p ∣ n) :
    p = 4 ∨ p.Prime := by
  rcases hp with rfl | rfl | ⟨hle, hodd⟩
  · exact .inl rfl
  · exact .inr Nat.prime_two
  · refine .inr (Nat.prime_def_lt'.mpr ⟨by omega, ?_⟩)
    intro d hd hlt hdp
    exact h.less (by omega) d hd hlt (hdp.trans hn)

/-- When the radices up to the root have been tried, what is left is a prime. -/
theorem Tried.prime_self {p n floor_sqrt : Nat} (h : Tried p n) (hne : p ≠ 4) (hn : 1 < n)
    (hsqrt : Nat.sqrt n ≤ floor_sqrt) (hp : floor_sqrt < p) : n.Prime := by
  by_contra hprime
  have hle : n.minFac ≤ Nat.sqrt n :=
    Nat.le_sqrt'.mpr (Nat.minFac_sq_le_self (by omega) hprime)
  exact h.less hne n.minFac (Nat.minFac_prime (by omega)).two_le (by omega) (Nat.minFac_dvd n)

/-- How many turns before `p`. -/
def rank (p : Nat) : Nat := if p = 4 then 0 else p - 1

theorem rank_next {p : Nat} (hp : IsRadix p) : rank p < rank (next_radix p) := by
  rcases hp with rfl | rfl | ⟨hle, hodd⟩
  · decide
  · decide
  · rw [next_radix_odd hodd, rank, rank, if_neg (by omega), if_neg (by omega)]
    omega

/-- What the inner loop finds. -/
structure Found (n p : Nat) : Prop where
  dvd : p ∣ n
  prime : p = 4 ∨ p.Prime
  rest : n / p = 1 ∨ IsRadix p ∧ Tried p n

/-- Where the loops are when a radix is looked for. -/
structure Searching (floor_sqrt n p : Nat) : Prop where
  sqrt : Nat.sqrt n ≤ floor_sqrt
  radix : IsRadix p
  tried : Tried p n
  le : p = 4 ∨ p ≤ floor_sqrt

theorem searching_four (n : Nat) : Searching (Nat.sqrt n) n 4 :=
  ⟨Nat.le_refl _, .inl rfl, tried_four n, .inl rfl⟩

theorem Searching.rank_le {floor_sqrt n p : Nat} (h : Searching floor_sqrt n p) :
    rank p ≤ floor_sqrt := by
  rcases h.le with rfl | hle
  · exact Nat.zero_le _
  · unfold rank
    split <;> omega

/-- The next radix, as long as it is not past the root. -/
theorem Searching.next {floor_sqrt n p : Nat} (h : Searching floor_sqrt n p) (hn : ¬p ∣ n)
    (hle : next_radix p ≤ floor_sqrt) : Searching floor_sqrt n (next_radix p) :=
  ⟨h.sqrt, h.radix.next.1, h.tried.next h.radix hn, .inr hle⟩

theorem search_radix_found {n floor_sqrt fuel p : Nat} (hn : 1 < n)
    (h : Searching floor_sqrt n p) (hfuel : floor_sqrt + 2 < fuel + rank p) :
    Found n (search_radix floor_sqrt n fuel p) := by
  induction fuel generalizing p with
  | zero =>
    have hrank := h.rank_le
    omega
  | succ fuel ih =>
    rw [search_radix]
    split
    · rename_i hmod
      have hdvd := Nat.dvd_of_mod_eq_zero hmod
      exact ⟨hdvd, h.tried.prime h.radix hdvd, .inr ⟨h.radix, h.tried⟩⟩
    · rename_i hmod
      have hnot : ¬p ∣ n := fun hdvd => hmod (Nat.mod_eq_zero_of_dvd hdvd)
      have hrank := rank_next h.radix
      dsimp only
      split
      · -- past the root: `n` itself is the last radix
        rename_i hpast
        have hprime :=
          (h.tried.next h.radix hnot).prime_self h.radix.next.2 hn h.sqrt hpast
        have hfound : search_radix floor_sqrt n fuel n = n := by
          cases fuel with
          | zero => rfl
          | succ fuel => rw [search_radix, if_pos (Nat.mod_self n)]
        rw [hfound]
        exact ⟨Nat.dvd_refl n, .inr hprime, .inl (Nat.div_self (by omega))⟩
      · rename_i hin
        exact ih (h.next hnot (by omega)) (by omega)

/-- A radix that leaves something is not larger than what it leaves. -/
theorem Found.searching {floor_sqrt n q : Nat} (h : Found n q) (hmore : 1 < n / q)
    (hsqrt : Nat.sqrt n ≤ floor_sqrt) : Searching floor_sqrt (n / q) q := by
  obtain ⟨hradix, htried⟩ := h.rest.resolve_left (by omega)
  have hdvd := Nat.div_dvd_of_dvd h.dvd
  refine ⟨(Nat.sqrt_le_sqrt (Nat.div_le_self n q)).trans hsqrt, hradix, htried.of_dvd hdvd, ?_⟩
  by_cases hfour : q = 4
  · exact .inl hfour
  · have hleft : q ≤ n / q := by
      by_contra hlt
      exact htried.less hfour (n / q) (by omega) (by omega) hdvd
    refine .inr (Nat.le_trans ?_ hsqrt)
    rw [Nat.le_sqrt]
    exact Nat.le_trans (Nat.mul_le_mul_left q hleft) (Nat.le_of_eq (Nat.mul_div_cancel' h.dvd))

/-! ## All of them -/

/-- `p[i] * m[i] = m[i-1]`, where `m0 = n`; the last one leaves nothing. -/
def Chain : Nat → List (Nat × Nat) → Prop
  | _, [] => False
  | n, (p, m) :: factors => p * m = n ∧ (m = 1 ∧ factors = [] ∨ 1 < m ∧ Chain m factors)

theorem Found.two_le {n p : Nat} (h : Found n p) : 2 ≤ p := by
  rcases h.prime with rfl | hprime
  · decide
  · exact hprime.two_le

theorem factor_loop_spec {floor_sqrt fuel n p : Nat} (hn : 1 < n) (hfuel : n ≤ fuel)
    (h : Searching floor_sqrt n p) :
    Chain n (factor_loop floor_sqrt fuel n p) ∧
      (∀ f ∈ factor_loop floor_sqrt fuel n p, f.1 = 4 ∨ f.1.Prime) ∧
      2 ^ (factor_loop floor_sqrt fuel n p).length ≤ n := by
  induction fuel generalizing n p with
  | zero => omega
  | succ fuel ih =>
    have hrank : floor_sqrt + 2 < floor_sqrt + 3 + rank p := by omega
    have hfound := search_radix_found hn h hrank
    rw [factor_loop]
    generalize search_radix floor_sqrt n (floor_sqrt + 3) p = q at hfound
    have hmul : q * (n / q) = n := Nat.mul_div_cancel' hfound.dvd
    have htwo := hfound.two_le
    split
    · rename_i hmore
      have hless : n / q < n := Nat.div_lt_self (by omega) htwo
      obtain ⟨hchain, hprime, hlength⟩ :=
        ih (n := n / q) (p := q) hmore (by omega) (hfound.searching hmore h.sqrt)
      refine ⟨⟨hmul, .inr ⟨hmore, hchain⟩⟩, ?_, ?_⟩
      · intro f hf
        rcases List.mem_cons.mp hf with rfl | hf
        · exact hfound.prime
        · exact hprime f hf
      · rw [List.length_cons, pow_succ, Nat.mul_comm]
        exact Nat.le_trans (Nat.mul_le_mul htwo hlength) (Nat.le_of_eq hmul)
    · rename_i hlast
      have hpos : 0 < n / q := Nat.div_pos (Nat.le_of_dvd (by omega) hfound.dvd) (by omega)
      refine ⟨⟨hmul, .inl ⟨by omega, rfl⟩⟩, ?_, ?_⟩
      · intro f hf
        rw [List.mem_singleton.mp hf]
        exact hfound.prime
      · simp only [List.length_singleton, pow_one]
        omega

theorem kf_factor_one : kf_factor 1 = [(1, 1)] := by
  decide

theorem kf_factor_spec {n : Nat} (hn : 1 < n) :
    Chain n (kf_factor n) ∧ (∀ f ∈ kf_factor n, f.1 = 4 ∨ f.1.Prime) ∧
      2 ^ (kf_factor n).length ≤ n :=
  factor_loop_spec hn (Nat.le_refl n) (searching_four n)

theorem kf_factor_chain {n : Nat} (hn : 0 < n) : Chain n (kf_factor n) := by
  rcases Nat.eq_or_lt_of_le hn with rfl | hn
  · rw [kf_factor_one]
    exact ⟨rfl, .inl ⟨rfl, rfl⟩⟩
  · exact (kf_factor_spec hn).1

theorem Chain.prod {n : Nat} {factors : List (Nat × Nat)} (h : Chain n factors) :
    (factors.map Prod.fst).prod = n := by
  induction factors generalizing n with
  | nil => exact h.elim
  | cons f factors ih =>
    obtain ⟨hmul, ⟨hone, rfl⟩ | ⟨-, hchain⟩⟩ := h
    · rw [← hmul, hone, List.map_singleton, List.prod_singleton, Nat.mul_one]
    · rw [List.map_cons, List.prod_cons, ih hchain, hmul]

/-- **The radices.** For every length that an `int` can hold they multiply to the length, each is 4
or a prime, and they fit into the array `factors` of the state. -/
theorem kf_factor_radix {n : Nat} (hn : 1 < n) (hint : n < 2 ^ 31) :
    ((kf_factor n).map Prod.fst).prod = n ∧ (∀ f ∈ kf_factor n, f.1 = 4 ∨ f.1.Prime) ∧
      2 * (kf_factor n).length ≤ 2 * MAXFACTORS := by
  obtain ⟨hchain, hprime, hlength⟩ := kf_factor_spec hn
  refine ⟨hchain.prod, hprime, ?_⟩
  have hfew : (kf_factor n).length < 31 :=
    (Nat.pow_lt_pow_iff_right (by decide)).mp (Nat.lt_of_le_of_lt hlength hint)
  simp only [MAXFACTORS]
  omega

theorem kf_factor_radix_128 : ((kf_factor 128).map Prod.fst).prod = 128 ∧
    (∀ f ∈ kf_factor 128, f.1 = 4 ∨ f.1.Prime) ∧ 2 * (kf_factor 128).length ≤ 2 * MAXFACTORS :=
  kf_factor_radix (by decide) (by decide)

/-! ## A size that splits -/

theorem divide_out_spec {d fuel m : Nat} (hd : 2 ≤ d) (hm : 0 < m) (hfuel : m ≤ fuel) :
    ∃ k, m = d ^ k * divide_out d fuel m ∧ ¬d ∣ divide_out d fuel m := by
  induction fuel generalizing m with
  | zero => omega
  | succ fuel ih =>
    rw [divide_out]
    split
    · rename_i hmod
      have hdvd := Nat.dvd_of_mod_eq_zero hmod
      have hless : m / d < m := Nat.div_lt_self hm hd
      have hpos : 0 < m / d := Nat.div_pos (Nat.le_of_dvd hm hdvd) (by omega)
      obtain ⟨k, hk, hnot⟩ := ih hpos (by omega)
      refine ⟨k + 1, ?_, hnot⟩
      rw [pow_succ, Nat.mul_assoc, Nat.mul_left_comm, ← hk, Nat.mul_div_cancel' hdvd]
    · rename_i hmod
      exact ⟨0, by rw [pow_zero, Nat.one_mul], fun hdvd => hmod (Nat.mod_eq_zero_of_dvd hdvd)⟩

theorem mem_smooth_mul {d : Nat} (hd : d.Prime) (hlt : d < 6) (k m : Nat) :
    d ^ k * m ∈ Nat.smoothNumbers 6 ↔ m ∈ Nat.smoothNumbers 6 := by
  constructor
  · exact fun h => Nat.mem_smoothNumbers_of_dvd h (Nat.dvd_mul_left m _)
  · intro h
    refine Nat.mul_mem_smoothNumbers (Nat.mem_smoothNumbers'.mpr ?_) h
    intro p hp hpd
    rwa [(Nat.prime_dvd_prime_iff_eq hp hd).mp (hp.dvd_of_dvd_pow hpd)]

/-- What is left when 2, 3 and 5 are divided out. -/
def left_over (n : Nat) : Nat :=
  let m := divide_out 2 n n
  let m := divide_out 3 m m
  divide_out 5 m m

theorem left_over_le_one {n : Nat} (hn : 0 < n) :
    left_over n ≤ 1 ↔ n ∈ Nat.smoothNumbers 6 := by
  unfold left_over
  obtain ⟨a, ha, htwo⟩ := divide_out_spec (d := 2) (by decide) hn (Nat.le_refl n)
  generalize divide_out 2 n n = x at ha htwo
  have hx : 0 < x := Nat.pos_of_ne_zero fun h => by simp [h] at htwo
  obtain ⟨b, hb, hthree⟩ := divide_out_spec (d := 3) (by decide) hx (Nat.le_refl x)
  dsimp only
  generalize divide_out 3 x x = y at hb hthree
  have hy : 0 < y := Nat.pos_of_ne_zero fun h => by simp [h] at hthree
  obtain ⟨c, hc, hfive⟩ := divide_out_spec (d := 5) (by decide) hy (Nat.le_refl y)
  generalize divide_out 5 y y = z at hc hfive
  have hz : 0 < z := Nat.pos_of_ne_zero fun h => by simp [h] at hfive
  rw [ha, mem_smooth_mul Nat.prime_two (by decide), hb,
    mem_smooth_mul Nat.prime_three (by decide), hc, mem_smooth_mul Nat.prime_five (by decide)]
  constructor
  · intro hle
    obtain rfl : z = 1 := by omega
    exact Nat.mem_smoothNumbers_of_lt Nat.one_pos (by decide)
  · intro hsmooth
    by_contra hgt
    have hprime := Nat.minFac_prime (n := z) (by omega)
    have hlt := Nat.mem_smoothNumbers'.mp hsmooth _ hprime (Nat.minFac_dvd z)
    have hdvd := Nat.minFac_dvd z
    have hy' : z ∣ y := hc ▸ Nat.dvd_mul_left z _
    have hx' : z ∣ x := hy'.trans (hb ▸ Nat.dvd_mul_left y _)
    have htwo_le := hprime.two_le
    generalize z.minFac = q at hprime hlt hdvd htwo_le
    interval_cases q
    · exact htwo (hdvd.trans hx')
    · exact hthree (hdvd.trans hy')
    · exact absurd hprime (by decide)
    · exact hfive hdvd

/-- What the loop finds, and what it means when `n++` overflows first. -/
theorem next_fast_size_loop_spec {fuel n : Nat} (hn : 0 < n) (hint : n ≤ INT_MAX)
    (h : ∃ s ∈ Nat.smoothNumbers 6, n ≤ s ∧ s < n + fuel) :
    (∀ k, next_fast_size_loop fuel n = some k →
      IsLeast {s | s ∈ Nat.smoothNumbers 6 ∧ n ≤ s} k ∧ k ≤ INT_MAX) ∧
    (next_fast_size_loop fuel n = none → ∀ s ∈ Nat.smoothNumbers 6, n ≤ s → INT_MAX < s) := by
  induction fuel generalizing n with
  | zero =>
    obtain ⟨s, -, hle, hlt⟩ := h
    omega
  | succ fuel ih =>
    have hstep : next_fast_size_loop (fuel + 1) n =
        if left_over n ≤ 1 then some n
        else if n = INT_MAX then none else next_fast_size_loop fuel (n + 1) := rfl
    rw [hstep]
    split
    · rename_i hfast
      refine ⟨?_, fun hnone => by cases hnone⟩
      rintro k ⟨⟩
      exact ⟨⟨⟨(left_over_le_one hn).mp hfast, Nat.le_refl n⟩, fun s hs => hs.2⟩, hint⟩
    · rename_i hslow
      have hself : ∀ s ∈ Nat.smoothNumbers 6, n ≤ s → n + 1 ≤ s := by
        intro s hs hle
        refine Nat.lt_of_le_of_ne hle ?_
        rintro rfl
        exact hslow ((left_over_le_one hn).mpr hs)
      split
      · rename_i hmax
        refine ⟨fun k hk => (by cases hk), fun _ s hs hle => ?_⟩
        rw [← hmax]
        exact hself s hs hle
      · rename_i hmax
        obtain ⟨s, hs, hle, hlt⟩ := h
        obtain ⟨hsome, hnone⟩ := ih (Nat.succ_pos n) (by omega) ⟨s, hs, hself s hs hle, by omega⟩
        constructor
        · intro k hk
          obtain ⟨hleast, hfits⟩ := hsome k hk
          exact ⟨⟨⟨hleast.1.1, Nat.le_of_succ_le hleast.1.2⟩,
            fun s hs => hleast.2 ⟨hs.1, hself s hs.1 hs.2⟩⟩, hfits⟩
        · exact fun h s hs hle => hnone h s hs (hself s hs hle)

theorem smooth_eq {s : Nat} (hs : s ∈ Nat.smoothNumbers 6) :
    ∃ a b c, s = 2 ^ a * (3 ^ b * 5 ^ c) := by
  have hpos : 0 < s := Nat.pos_of_ne_zero (Nat.ne_zero_of_mem_smoothNumbers hs)
  have hone := (left_over_le_one hpos).mpr hs
  unfold left_over at hone
  obtain ⟨a, ha, -⟩ := divide_out_spec (d := 2) (by decide) hpos (Nat.le_refl s)
  generalize divide_out 2 s s = x at ha hone
  have hx : 0 < x := Nat.pos_of_mul_pos_left (ha ▸ hpos)
  obtain ⟨b, hb, -⟩ := divide_out_spec (d := 3) (by decide) hx (Nat.le_refl x)
  dsimp only at hone
  generalize divide_out 3 x x = y at hb hone
  have hy : 0 < y := Nat.pos_of_mul_pos_left (hb ▸ hx)
  obtain ⟨c, hc, -⟩ := divide_out_spec (d := 5) (by decide) hy (Nat.le_refl y)
  generalize divide_out 5 y y = z at hc hone
  have hz : 0 < z := Nat.pos_of_mul_pos_left (hc ▸ hy)
  obtain rfl : z = 1 := by omega
  exact ⟨a, b, c, by rw [ha, hb, hc, Nat.mul_one]⟩

/-- The last of these sizes that an `int` can hold is `2 ^ 5 * 3 ^ 12 * 5 ^ 3`. -/
theorem smooth_le {s : Nat} (hs : s ∈ Nat.smoothNumbers 6) (hint : s ≤ INT_MAX) :
    s ≤ 2125764000 := by
  obtain ⟨a, b, c, rfl⟩ := smooth_eq hs
  have hall : ∀ a < 31, ∀ b < 20, ∀ c < 14, 2 ^ a * (3 ^ b * 5 ^ c) ≤ INT_MAX →
      2 ^ a * (3 ^ b * 5 ^ c) ≤ 2125764000 := by
    decide +kernel
  have htwo : 0 < 2 ^ a := Nat.two_pow_pos a
  have hthree : 0 < 3 ^ b := Nat.pow_pos (by decide)
  have hfive : 0 < 5 ^ c := Nat.pow_pos (by decide)
  have hrest : 3 ^ b * 5 ^ c ≤ INT_MAX := Nat.le_trans (Nat.le_mul_of_pos_left _ htwo) hint
  have ha : 2 ^ a < 2 ^ 31 := by
    refine Nat.lt_of_le_of_lt (Nat.le_mul_of_pos_right _ (Nat.mul_pos hthree hfive)) ?_
    exact Nat.lt_of_le_of_lt hint (by decide)
  have hb : 3 ^ b < 3 ^ 20 := by
    refine Nat.lt_of_le_of_lt (Nat.le_mul_of_pos_right _ hfive) ?_
    exact Nat.lt_of_le_of_lt hrest (by decide)
  have hc : 5 ^ c < 5 ^ 14 := by
    refine Nat.lt_of_le_of_lt (Nat.le_mul_of_pos_left _ hthree) ?_
    exact Nat.lt_of_le_of_lt hrest (by decide)
  exact hall a ((Nat.pow_lt_pow_iff_right (by decide)).mp ha)
    b ((Nat.pow_lt_pow_iff_right (by decide)).mp hb)
    c ((Nat.pow_lt_pow_iff_right (by decide)).mp hc) hint

/-- **The next fast size.** For every `int` that is positive, the answer is the smallest number,
from `n` on, that 2, 3 and 5 factorize, provided an `int` can hold it; from 2125764001 on the
counter overflows before there is one. -/
theorem kiss_fft_next_fast_size_isLeast {n : Nat} (hn : 0 < n) (hint : n ≤ INT_MAX) :
    (∀ k, kiss_fft_next_fast_size n = some k ↔
      IsLeast {s | s ∈ Nat.smoothNumbers 6 ∧ n ≤ s} k ∧ k ≤ INT_MAX) ∧
    (kiss_fft_next_fast_size n = none ↔ 2125764000 < n) := by
  have hpower : ∃ s ∈ Nat.smoothNumbers 6, n ≤ s ∧ s < n + (n + 1) := by
    refine ⟨2 ^ (Nat.log 2 n + 1), ?_, ?_, ?_⟩
    · rw [← Nat.mul_one (2 ^ _), mem_smooth_mul Nat.prime_two (by decide)]
      exact Nat.mem_smoothNumbers_of_lt Nat.one_pos (by decide)
    · exact Nat.le_of_lt (Nat.lt_pow_succ_log_self (by decide) n)
    · have hlog := Nat.pow_log_le_self 2 hn.ne'
      rw [pow_succ]
      omega
  obtain ⟨hsome, hnone⟩ := next_fast_size_loop_spec hn hint hpower
  constructor
  · intro k
    refine ⟨hsome k, fun ⟨hleast, hfits⟩ => ?_⟩
    cases hfound : kiss_fft_next_fast_size n with
    | none =>
      have hlarge := hnone hfound k hleast.1.1 hleast.1.2
      omega
    | some j => rw [(hsome j hfound).1.unique hleast]
  · constructor
    · intro h
      by_contra hle
      have hlast : 2125764000 ∈ Nat.smoothNumbers 6 := by
        have hfactors : 2125764000 = 2 ^ 5 * (3 ^ 12 * (5 ^ 3 * 1)) := by decide
        rw [hfactors, mem_smooth_mul Nat.prime_two (by decide),
          mem_smooth_mul Nat.prime_three (by decide), mem_smooth_mul Nat.prime_five (by decide)]
        exact Nat.mem_smoothNumbers_of_lt Nat.one_pos (by decide)
      exact absurd (hnone h _ hlast (Nat.le_of_not_lt hle)) (by decide)
    · intro hlarge
      cases hfound : kiss_fft_next_fast_size n with
      | none => rfl
      | some k =>
        obtain ⟨hleast, hfits⟩ := hsome k hfound
        have hle := smooth_le hleast.1.1 hfits
        have hge := hleast.1.2
        omega

theorem kiss_fft_next_fast_size_seven :
    (∀ k, kiss_fft_next_fast_size 7 = some k ↔
      IsLeast {s | s ∈ Nat.smoothNumbers 6 ∧ 7 ≤ s} k ∧ k ≤ INT_MAX) ∧
    (kiss_fft_next_fast_size 7 = none ↔ 2125764000 < 7) :=
  kiss_fft_next_fast_size_isLeast (by decide) (by decide)

end KissFft
end SoundScreen
