import SoundScreen.KissFft.Work

/-!
# SoundScreen.KissFft.Template

`kissfft.hh`, the class template that does in C++ what `kiss_fft.c` does in C. The two compute their
twiddles by different formulas, which are the same numbers in exact arithmetic only.

* `factorize_eq`: it stops its search for radices at another place and finds the same ones.
* `transform_agrees`: in exact arithmetic it transforms every sequence as `kiss_fft` does.
-/

namespace SoundScreen
namespace KissFft

open Function (update)

variable {R : Type*} [Field R]

/-- The members of `kissfft`; `_twiddles` of its traits is a copy of `twiddles`. What lies behind
the vector are the entries of `twiddles` from `nfft` on, and `before` is what a negative place
reads. -/
structure Kissfft (R : Type*) where
  nfft : Nat
  inverse : Bool
  twiddles : Nat → Cpx R
  before : Nat → Cpx R
  stageRadix : List Nat
  stageRemainder : List Nat

namespace Kissfft

/-- `twiddles[twidx]`. -/
def twiddle (c : Kissfft R) : Int → Cpx R
  | .ofNat i => c.twiddles i
  | .negSucc i => c.before i

/-! ## The source -/

/-- `exp` of an imaginary number is `kf_cexp`, and `acos(-1)` is `pi`. -/
def fill_twiddles (lib : Libm R) (dst : Nat → Cpx R) (nfft : Nat) (inverse : Bool) : Nat → Cpx R :=
  let phinc := (if inverse then 2 else -2) * lib.pi / nfft
  (List.range nfft).foldl (fun dst (i : Nat) => update dst i (kf_cexp lib (i * phinc))) dst

/-- `while (n % p)`, at most `fuel` turns of it; there is no result when `p*p` overflows. -/
def search_radix (n : Nat) : Nat → Nat → Option Nat
  | 0, _ => none
  | fuel + 1, p =>
    if n % p = 0 then some p
    else
      let p := next_radix p
      if 2 ^ 31 ≤ p * p then none
      else search_radix n fuel (if n < p * p then n else p)

/-- `do { ... } while (n > 1)`, at most `fuel` turns of it. -/
def factorize (nfft : Nat) : Nat → Nat → Nat → Option (List Nat × List Nat)
  | 0, _, _ => none
  | fuel + 1, n, p => do
    let p ← search_radix n (nfft + 3) p
    let n := n / p
    if 1 < n then
      let (stageRadix, stageRemainder) ← factorize nfft fuel n p
      some (p :: stageRadix, n :: stageRemainder)
    else some ([p], [n])

/-- The constructor; `resize` leaves zeros, and `behind` and `before` are what is around the
vector. -/
def prepare (lib : Libm R) (nfft : Nat) (inverse : Bool) (behind before : Nat → Cpx R) :
    Option (Kissfft R) :=
  (factorize nfft nfft nfft 4).map fun (stageRadix, stageRemainder) =>
    let twiddles := fill_twiddles lib (fun i => if i < nfft then 0 else behind i) nfft inverse
    { nfft, inverse, twiddles, before, stageRadix, stageRemainder }

/-- One turn of the loop of `kf_bfly2`. -/
def bfly2_turn (Fout fstride : Nat) (c : Kissfft R) (m : Nat) (mem : Nat → Cpx R) (k : Nat) :
    Nat → Cpx R :=
  let t := mem (Fout + (m + k)) * c.twiddles (k * fstride)
  let mem := update mem (Fout + (m + k)) (mem (Fout + k) - t)
  update mem (Fout + k) (mem (Fout + k) + t)

def kf_bfly2 (Fout fstride : Nat) (c : Kissfft R) (m : Nat) (mem : Nat → Cpx R) : Nat → Cpx R :=
  (List.range m).foldl (bfly2_turn Fout fstride c m) mem

/-- One turn of the loop of `kf_bfly4`. -/
def bfly4_turn (Fout fstride : Nat) (c : Kissfft R) (m : Nat) (mem : Nat → Cpx R) (k : Nat) :
    Nat → Cpx R :=
  let negative_if_inverse : R := (if c.inverse then 1 else 0) * -2 + 1
  let scratch0 := mem (Fout + (k + m)) * c.twiddles (k * fstride)
  let scratch1 := mem (Fout + (k + 2 * m)) * c.twiddles (k * fstride * 2)
  let scratch2 := mem (Fout + (k + 3 * m)) * c.twiddles (k * fstride * 3)
  let scratch5 := mem (Fout + k) - scratch1
  let mem := update mem (Fout + k) (mem (Fout + k) + scratch1)
  let scratch3 := scratch0 + scratch2
  let scratch4 := scratch0 - scratch2
  let scratch4 : Cpx R := ⟨scratch4.i * negative_if_inverse, -scratch4.r * negative_if_inverse⟩
  let mem := update mem (Fout + (k + 2 * m)) (mem (Fout + k) - scratch3)
  let mem := update mem (Fout + k) (mem (Fout + k) + scratch3)
  let mem := update mem (Fout + (k + m)) (scratch5 + scratch4)
  update mem (Fout + (k + 3 * m)) (scratch5 - scratch4)

def kf_bfly4 (Fout fstride : Nat) (c : Kissfft R) (m : Nat) (mem : Nat → Cpx R) : Nat → Cpx R :=
  (List.range m).foldl (bfly4_turn Fout fstride c m) mem

/-- One turn of the loop of `kf_bfly3`. -/
def bfly3_turn (Fout fstride : Nat) (c : Kissfft R) (m : Nat) (mem : Nat → Cpx R) (k : Nat) :
    Nat → Cpx R :=
  let Fout := Fout + k
  let m2 := 2 * m
  let epi3 := c.twiddles (fstride * m)
  let scratch1 := mem (Fout + m) * c.twiddles (k * fstride)
  let scratch2 := mem (Fout + m2) * c.twiddles (k * (fstride * 2))
  let scratch3 := scratch1 + scratch2
  let scratch0 := scratch1 - scratch2
  let mem := update mem (Fout + m)
    ⟨(mem Fout).r - HALF_OF scratch3.r, (mem Fout).i - HALF_OF scratch3.i⟩
  let scratch0 := C_MULBYSCALAR scratch0 epi3.i
  let mem := update mem Fout (mem Fout + scratch3)
  let mem := update mem (Fout + m2)
    ⟨(mem (Fout + m)).r + scratch0.i, (mem (Fout + m)).i - scratch0.r⟩
  update mem (Fout + m) (mem (Fout + m) + ⟨-scratch0.i, scratch0.r⟩)

def kf_bfly3 (Fout fstride : Nat) (c : Kissfft R) (m : Nat) (mem : Nat → Cpx R) : Nat → Cpx R :=
  (List.range m).foldl (bfly3_turn Fout fstride c m) mem

/-- One turn of the loop of `kf_bfly5`. -/
def bfly5_turn (Fout fstride : Nat) (c : Kissfft R) (m : Nat) (mem : Nat → Cpx R) (u : Nat) :
    Nat → Cpx R :=
  let ya := c.twiddles (fstride * m)
  let yb := c.twiddles (fstride * 2 * m)
  let Fout0 := Fout + u
  let Fout1 := Fout + m + u
  let Fout2 := Fout + 2 * m + u
  let Fout3 := Fout + 3 * m + u
  let Fout4 := Fout + 4 * m + u
  let scratch0 := mem Fout0
  let scratch1 := mem Fout1 * c.twiddles (u * fstride)
  let scratch2 := mem Fout2 * c.twiddles (2 * u * fstride)
  let scratch3 := mem Fout3 * c.twiddles (3 * u * fstride)
  let scratch4 := mem Fout4 * c.twiddles (4 * u * fstride)
  let scratch7 := scratch1 + scratch4
  let scratch10 := scratch1 - scratch4
  let scratch8 := scratch2 + scratch3
  let scratch9 := scratch2 - scratch3
  let mem := update mem Fout0 (mem Fout0 + scratch7)
  let mem := update mem Fout0 (mem Fout0 + scratch8)
  let scratch5 := scratch0 +
    ⟨S_MUL scratch7.r ya.r + S_MUL scratch8.r yb.r, S_MUL scratch7.i ya.r + S_MUL scratch8.i yb.r⟩
  let scratch6 : Cpx R :=
    ⟨S_MUL scratch10.i ya.i + S_MUL scratch9.i yb.i,
      -S_MUL scratch10.r ya.i - S_MUL scratch9.r yb.i⟩
  let mem := update mem Fout1 (scratch5 - scratch6)
  let mem := update mem Fout4 (scratch5 + scratch6)
  let scratch11 := scratch0 +
    ⟨S_MUL scratch7.r yb.r + S_MUL scratch8.r ya.r, S_MUL scratch7.i yb.r + S_MUL scratch8.i ya.r⟩
  let scratch12 : Cpx R :=
    ⟨-S_MUL scratch10.i yb.i + S_MUL scratch9.i ya.i,
      S_MUL scratch10.r yb.i - S_MUL scratch9.r ya.i⟩
  let mem := update mem Fout2 (scratch11 + scratch12)
  update mem Fout3 (scratch11 - scratch12)

def kf_bfly5 (Fout fstride : Nat) (c : Kissfft R) (m : Nat) (mem : Nat → Cpx R) : Nat → Cpx R :=
  (List.range m).foldl (bfly5_turn Fout fstride c m) mem

/-- One turn of the loop over `q` of `kf_bfly_generic`: what is in `Fout[k]`, and `twidx`. -/
def generic_step (fstride : Nat) (c : Kissfft R) (k : Nat) (scratchbuf : Nat → Cpx R) :
    Cpx R × Int → Nat → Cpx R × Int
  | (x, twidx), q =>
    let twidx := Int.bmod (twidx + (fstride * k : Nat)) (2 ^ 32)
    let twidx := if c.nfft ≤ twidx then twidx - c.nfft else twidx
    let t := scratchbuf q * c.twiddle twidx
    (x + t, twidx)

/-- One turn of the loop over `u` of `kf_bfly_generic`. -/
def generic_turn (Fout fstride : Nat) (c : Kissfft R) (m p : Nat) (mem : Nat → Cpx R) (u : Nat) :
    Nat → Cpx R :=
  let scratchbuf := fun q1 => mem (Fout + (u + q1 * m))
  (List.range p).foldl (fun mem q1 =>
    let k := u + q1 * m
    update mem (Fout + k) ((List.range (p - 1)).foldl
      (fun s q => generic_step fstride c k scratchbuf s (q + 1)) (scratchbuf 0, 0)).1) mem

def kf_bfly_generic (Fout fstride : Nat) (c : Kissfft R) (m p : Nat) (mem : Nat → Cpx R) :
    Nat → Cpx R :=
  (List.range m).foldl (generic_turn Fout fstride c m p) mem

/-- `switch (p)`. -/
def kf_bfly (p Fout fstride : Nat) (c : Kissfft R) (m : Nat) (mem : Nat → Cpx R) : Nat → Cpx R :=
  match p with
  | 2 => kf_bfly2 Fout fstride c m mem
  | 3 => kf_bfly3 Fout fstride c m mem
  | 4 => kf_bfly4 Fout fstride c m mem
  | 5 => kf_bfly5 Fout fstride c m mem
  | p => kf_bfly_generic Fout fstride c m p mem

/-- The lists are `_stageRadix` and `_stageRemainder` from `stage` on. -/
def kf_work (c : Kissfft R) (src : Nat → Cpx R) (in_stride : Nat) :
    List Nat → List Nat → Nat → Nat → Nat → (Nat → Cpx R) → Nat → Cpx R
  | p :: stageRadix, m :: stageRemainder, Fout, f, fstride, mem =>
    let mem :=
      if m = 1 then
        (List.range (p * m)).foldl (fun mem k =>
          update mem (Fout + k) (src (f + k * (fstride * in_stride)))) mem
      else
        (List.range p).foldl (fun mem k =>
          kf_work c src in_stride stageRadix stageRemainder (Fout + k * m)
            (f + k * (fstride * in_stride)) (fstride * p) mem) mem
    kf_bfly p Fout fstride c m mem
  | _, _, _, _, _, mem => mem

def transform (c : Kissfft R) (src dst : Nat → Cpx R) : Nat → Cpx R :=
  kf_work c src 1 c.stageRadix c.stageRemainder 0 0 1 dst

/-! ## The radices -/

/-- Where a search ends does not depend on how it goes. -/
theorem radix_unique {n p q : Nat} (hp : Found n p) (hq : Found n q) (h : 4 ∣ n → p = q) :
    p = q := by
  by_cases hfour : 4 ∣ n
  · exact h hfour
  · have hleast : ∀ r, Found n r → r = n.minFac := by
      intro r hr
      have hprime := hr.prime.resolve_left fun heq => hfour (heq ▸ hr.dvd)
      rcases hr.rest with hone | ⟨-, htried⟩
      · have hself : r * 1 = n := hone ▸ Nat.mul_div_cancel' hr.dvd
        rw [← hself, Nat.mul_one, hprime.minFac_eq]
      · have hne : n ≠ 1 := fun heq => hprime.one_lt.ne' (Nat.dvd_one.mp (heq ▸ hr.dvd))
        refine Nat.le_antisymm (Nat.le_of_not_lt fun hlt => ?_)
          (Nat.minFac_le_of_dvd hprime.two_le hr.dvd)
        exact htried.less (fun heq => hfour (heq ▸ hr.dvd)) _ (Nat.minFac_prime hne).two_le hlt
          (Nat.minFac_dvd n)
    rw [hleast p hp, hleast q hq]

theorem search_radix_found {n floor_sqrt fuel p : Nat} (hn : 1 < n)
    (h : Searching floor_sqrt n p) (hint : floor_sqrt < 46339)
    (hfuel : floor_sqrt + 2 < fuel + rank p) :
    ∃ q, search_radix n fuel p = some q ∧ Found n q ∧ (p ∣ n → q = p) := by
  induction fuel generalizing p with
  | zero =>
    have hrank := h.rank_le
    omega
  | succ fuel ih =>
    rw [search_radix]
    split
    · rename_i hmod
      have hdvd := Nat.dvd_of_mod_eq_zero hmod
      exact ⟨p, rfl, ⟨hdvd, h.tried.prime h.radix hdvd, .inr ⟨h.radix, h.tried⟩⟩, fun _ => rfl⟩
    · rename_i hmod
      have hnot : ¬p ∣ n := fun hdvd => hmod (Nat.mod_eq_zero_of_dvd hdvd)
      have hrank := rank_next h.radix
      have hnext : next_radix p ≤ 46340 := by
        rcases h.radix with rfl | rfl | ⟨hle, hodd⟩
        · decide
        · decide
        · rw [next_radix_odd hodd]
          have hp := h.le
          omega
      have hsquare : next_radix p * next_radix p < 2 ^ 31 :=
        Nat.lt_of_le_of_lt (Nat.mul_le_mul hnext hnext) (by decide)
      dsimp only
      rw [if_neg (Nat.not_le.mpr hsquare)]
      split
      · -- past the root: `n` itself is the last radix
        rename_i hpast
        have hprime := (h.tried.next h.radix hnot).prime_self h.radix.next.2 hn (Nat.le_refl _)
          (Nat.sqrt_lt.mpr hpast)
        have hrank_le := h.rank_le
        obtain ⟨fuel, rfl⟩ : ∃ k, fuel = k + 1 := ⟨fuel - 1, by omega⟩
        refine ⟨n, ?_, ⟨Nat.dvd_refl n, .inr hprime, .inl (Nat.div_self (by omega))⟩,
          fun hdvd => absurd hdvd hnot⟩
        rw [search_radix, if_pos (Nat.mod_self n)]
      · rename_i hin
        have hle : next_radix p ≤ floor_sqrt :=
          (Nat.le_sqrt.mpr (Nat.le_of_not_lt hin)).trans h.sqrt
        obtain ⟨q, hq, hfound, -⟩ := ih (h.next hnot hle) (by omega)
        exact ⟨q, hq, hfound, fun hdvd => absurd hdvd hnot⟩

/-! ## The butterflies -/

/-- What `kiss_fft.c` keeps. -/
def state (c : Kissfft R) : Cfg R :=
  ⟨c.nfft, c.inverse, c.stageRadix.zip c.stageRemainder, c.twiddles, c.before⟩

theorem bfly2_turn_eq (Fout fstride : Nat) (c : Kissfft R) (m : Nat) :
    bfly2_turn Fout fstride c m = KissFft.bfly2_turn Fout fstride c.state m := by
  funext mem k
  have hplace : Fout + (m + k) = Fout + k + m := by omega
  rw [bfly2_turn, hplace]
  rfl

theorem bfly4_turn_eq (Fout fstride : Nat) (c : Kissfft R) (m : Nat) :
    bfly4_turn Fout fstride c m = KissFft.bfly4_turn Fout fstride c.state m := by
  funext mem k
  have hback : ∀ s t : Cpx R, s + ⟨-t.i, t.r⟩ = ⟨s.r - t.i, s.i + t.r⟩ ∧
      s - ⟨-t.i, t.r⟩ = ⟨s.r + t.i, s.i - t.r⟩ := by
    intro s t
    constructor <;> ext <;> simp [sub_eq_add_neg]
  have hon : ∀ s t : Cpx R, s + ⟨t.i, -t.r⟩ = ⟨s.r + t.i, s.i - t.r⟩ ∧
      s - ⟨t.i, -t.r⟩ = ⟨s.r - t.i, s.i + t.r⟩ := by
    intro s t
    constructor <;> ext <;> simp [sub_eq_add_neg]
  have hsign : (if c.inverse then 1 else 0) * -2 + 1 = if c.inverse then (-1 : R) else 1 := by
    split <;> ring
  simp only [bfly4_turn, KissFft.bfly4_turn, hsign, state, C_MUL_eq, C_ADD_eq, C_SUB_eq,
    ← Nat.add_assoc, Nat.mul_assoc]
  split
  · rename_i hinverse
    simp only [mul_neg, mul_one, neg_neg, hback, hinverse, if_true]
  · rename_i hinverse
    simp only [mul_one, hon, hinverse, Bool.false_eq_true, if_false]

theorem bfly3_turn_eq (Fout fstride : Nat) (c : Kissfft R) (m : Nat) :
    bfly3_turn Fout fstride c m = KissFft.bfly3_turn Fout fstride c.state m := by
  funext mem k
  have hsub : ∀ x s : Cpx R, x + ⟨-s.i, s.r⟩ = ⟨x.r - s.i, x.i + s.r⟩ := by
    intro x s
    ext
    · exact (sub_eq_add_neg x.r s.i).symm
    · rfl
  simp only [bfly3_turn, KissFft.bfly3_turn, hsub]
  rfl

theorem bfly5_turn_eq (Fout fstride : Nat) (c : Kissfft R) (m : Nat) :
    bfly5_turn Fout fstride c m = KissFft.bfly5_turn Fout fstride c.state m := by
  funext mem u
  have hsum : ∀ x s t : Cpx R, x + s + t = ⟨x.r + (s.r + t.r), x.i + (s.i + t.i)⟩ := by
    intro x s t
    ext <;> simp [add_assoc]
  have hpair : ∀ (x : Cpx R) (a b c d : R), x + ⟨a + b, c + d⟩ = ⟨x.r + a + b, x.i + c + d⟩ := by
    intro x a b c d
    ext <;> simp [add_assoc]
  have hplace : ∀ q, Fout + q * m + u = Fout + u + q * m := by
    intro q
    omega
  have hfirst : Fout + m + u = Fout + u + m := by omega
  simp only [bfly5_turn, KissFft.bfly5_turn, Function.update_idem, Function.update_self, hsum,
    hpair, hplace, hfirst]
  rfl

/-! ## The whole transform -/

theorem kf_bfly_eq (p Fout fstride : Nat) (c : Kissfft R) (m : Nat) :
    kf_bfly p Fout fstride c m = KissFft.kf_bfly p Fout fstride c.state m := by
  funext mem
  unfold kf_bfly
  split
  · rw [kf_bfly2, bfly2_turn_eq]
    rfl
  · rw [kf_bfly3, bfly3_turn_eq]
    rfl
  · rw [kf_bfly4, bfly4_turn_eq]
    rfl
  · rw [kf_bfly5, bfly5_turn_eq]
    rfl
  · unfold KissFft.kf_bfly
    split
    · contradiction
    · contradiction
    · contradiction
    · contradiction
    · rfl

theorem kf_work_eq (c : Kissfft R) (src : Nat → Cpx R) (in_stride : Nat)
    (factors : List (Nat × Nat)) (Fout f fstride : Nat) (mem : Nat → Cpx R) :
    kf_work c src in_stride (factors.map Prod.fst) (factors.map Prod.snd) Fout f fstride mem =
      KissFft.kf_work c.state src in_stride factors Fout f fstride mem := by
  induction factors generalizing Fout f fstride mem with
  | nil => rfl
  | cons factor factors ih =>
    obtain ⟨p, m⟩ := factor
    rw [List.map_cons, List.map_cons, kf_work, KissFft.kf_work, kf_bfly_eq]
    simp only [ih]
    split
    · rename_i hone
      rw [hone, Nat.mul_one]
    · rfl

theorem factorize_eq {nfft floor_sqrt fuel n p : Nat} (hn : 1 < n) (hfuel : n ≤ fuel)
    (hle : floor_sqrt ≤ nfft) (hint : floor_sqrt < 46339) (h : Searching floor_sqrt n p) :
    factorize nfft fuel n p =
      some ((factor_loop floor_sqrt fuel n p).map Prod.fst,
        (factor_loop floor_sqrt fuel n p).map Prod.snd) := by
  induction fuel generalizing n p with
  | zero => omega
  | succ fuel ih =>
    obtain ⟨q, hsearch, hfound, hfour⟩ :=
      search_radix_found hn h hint (show floor_sqrt + 2 < nfft + 3 + rank p by omega)
    have hfound' :=
      KissFft.search_radix_found hn h (show floor_sqrt + 2 < floor_sqrt + 3 + rank p by omega)
    have hsame : q = KissFft.search_radix floor_sqrt n (floor_sqrt + 3) p := by
      refine radix_unique hfound hfound' fun hdvd => ?_
      -- four is tried first
      have hp : p = 4 := by
        by_contra hne
        exact h.tried.four hne hdvd
      rw [hfour (hp ▸ hdvd), KissFft.search_radix, if_pos (Nat.mod_eq_zero_of_dvd (hp ▸ hdvd))]
    have hless : n / q < n := Nat.div_lt_self (by omega) hfound.two_le
    rw [factorize, hsearch, factor_loop, ← hsame, Option.bind_eq_bind, Option.bind_some]
    dsimp only
    split
    · rename_i hmore
      rw [ih hmore (by omega) (hfound.searching hmore h.sqrt)]
      rfl
    · rfl

theorem factorize_one : factorize 1 1 1 4 =
    some ((kf_factor 1).map Prod.fst, (kf_factor 1).map Prod.snd) := by
  decide

variable (lib : Libm R)

/-- The state of the object is one that `kiss_fft_alloc` makes. -/
theorem prepare_eq {nfft : Nat} (hn : 0 < nfft) (hint : nfft < 46339 ^ 2) (inverse : Bool)
    (behind before : Nat → Cpx R) :
    ∃ c, prepare lib nfft inverse behind before = some c ∧
      (∃ memory, c.state = kiss_fft_alloc lib nfft inverse memory) ∧
      c.stageRadix = c.state.factors.map Prod.fst ∧
      c.stageRemainder = c.state.factors.map Prod.snd := by
  have hfactors : factorize nfft nfft nfft 4 =
      some ((kf_factor nfft).map Prod.fst, (kf_factor nfft).map Prod.snd) := by
    rcases Nat.eq_or_lt_of_le hn with rfl | hn
    · exact factorize_one
    · exact factorize_eq hn (Nat.le_refl nfft) (Nat.sqrt_le_self nfft)
        (Nat.sqrt_lt'.mpr hint) (searching_four nfft)
  have hphase : ∀ i : Nat, (i : R) * ((if inverse then 2 else -2) * lib.pi / nfft) =
      if inverse then -2 * lib.pi * i / nfft * -1 else -2 * lib.pi * i / nfft := by
    intro i
    split <;> ring
  have hzip : ((kf_factor nfft).map Prod.fst).zip ((kf_factor nfft).map Prod.snd) =
      kf_factor nfft := by
    rw [List.zip_map', List.map_id']
  let twiddles : Nat → Cpx R := fun i => if i < nfft then 0 else behind i
  refine ⟨_, by rw [prepare, hfactors]; rfl, ⟨⟨nfft, inverse, [], twiddles, before⟩, ?_⟩, ?_, ?_⟩
  · simp only [state, kiss_fft_alloc, fill_twiddles, hphase, hzip, twiddles]
  · simp only [state, hzip]
  · simp only [state, hzip]

/-- **The class template.** For every length up to `max_nfft`, in both directions and whatever is
around the vector: the constructor returns, and in exact arithmetic the object transforms every
sequence as `kiss_fft` does. -/
theorem transform_agrees {nfft : Nat} (hn : 0 < nfft) (hsmall : nfft ≤ max_nfft) (inverse : Bool)
    (behind before : Nat → Cpx R) (memory : Cfg R) (tmpbuf src dst : Nat → Cpx R) :
    (prepare lib nfft inverse behind before).map (fun c => c.transform src dst) =
      some (kiss_fft (kiss_fft_alloc lib nfft inverse memory) tmpbuf (some src) dst) := by
  have hint : nfft < 46339 ^ 2 := Nat.lt_of_le_of_lt hsmall (by decide)
  obtain ⟨c, hc, ⟨around, hstate⟩, hradix, hremainder⟩ :=
    prepare_eq lib hn hint inverse behind before
  rw [hc, Option.map_some]
  refine congrArg some ?_
  funext k
  have hobject : c.transform src dst k =
      kiss_fft (kiss_fft_alloc lib nfft inverse around) tmpbuf (some src) dst k := by
    rw [transform, hradix, hremainder, kf_work_eq, hstate]
    rfl
  have hready := Ready.alloc lib hn hsmall inverse
  rw [hobject, (hready around).kiss_fft, (hready memory).kiss_fft]
  rfl

theorem transform_three :
    (prepare Libm.real 3 true (fun _ => 0) fun _ => 0).map
        (fun c => c.transform (fun _ => 1) fun _ => 0) =
      some (kiss_fft (kiss_fft_alloc Libm.real 3 true default) (fun _ => 0) (some fun _ => 1)
        fun _ => 0) :=
  transform_agrees Libm.real (by decide) (by decide) true _ _ _ _ _ _

end Kissfft
end KissFft
end SoundScreen
