import Mathlib.Logic.Function.Basic
import Mathlib.Tactic.IntervalCases
import SoundScreen.KissFft.Cpx
import SoundScreen.Lib.Columns
import SoundScreen.Lib.Loop

/-!
# SoundScreen.KissFft.Butterfly

The butterflies of `kiss_fft.c`: how it puts the transforms of `p` parts together, with a function
of its own for 2, 3, 4 and 5. The memory of the output is a function of the place, and `Fout` is
where the part starts.

* `kf_bfly2_pass` to `kf_bfly5_pass`: each is a transform of length `p` on one column at a time.
* `kf_bfly_generic_pass`: so is the one for any `p`.
-/

namespace SoundScreen
namespace KissFft

open Function (update)
open Columns (Pass)
open Dft (dft)

variable {R : Type*} [Field R]

/-- `kiss_fft_state`; the entries of `twiddles` from `nfft` on are what lies behind it, and `before`
is what a negative place reads. -/
structure Cfg (R : Type*) where
  nfft : Nat
  inverse : Bool
  factors : List (Nat × Nat)
  twiddles : Nat → Cpx R
  before : Nat → Cpx R
deriving Inhabited

/-- `twiddles[twidx]`. -/
def Cfg.twiddle (st : Cfg R) : Int → Cpx R
  | .ofNat i => st.twiddles i
  | .negSucc i => st.before i

/-! ## The source -/

/-- One turn of the loop of `kf_bfly2`. -/
def bfly2_turn (Fout fstride : Nat) (st : Cfg R) (m : Nat) (mem : Nat → Cpx R) (k : Nat) :
    Nat → Cpx R :=
  let Fout2 := Fout + k + m
  let Fout := Fout + k
  let t := C_MUL (mem Fout2) (st.twiddles (k * fstride))
  let mem := update mem Fout2 (C_SUB (mem Fout) t)
  update mem Fout (C_ADD (mem Fout) t)

def kf_bfly2 (Fout fstride : Nat) (st : Cfg R) (m : Nat) (mem : Nat → Cpx R) : Nat → Cpx R :=
  (List.range m).foldl (bfly2_turn Fout fstride st m) mem

/-- One turn of the loop of `kf_bfly4`. -/
def bfly4_turn (Fout fstride : Nat) (st : Cfg R) (m : Nat) (mem : Nat → Cpx R) (k : Nat) :
    Nat → Cpx R :=
  let Fout := Fout + k
  let m2 := 2 * m
  let m3 := 3 * m
  let scratch0 := C_MUL (mem (Fout + m)) (st.twiddles (k * fstride))
  let scratch1 := C_MUL (mem (Fout + m2)) (st.twiddles (k * (fstride * 2)))
  let scratch2 := C_MUL (mem (Fout + m3)) (st.twiddles (k * (fstride * 3)))
  let scratch5 := C_SUB (mem Fout) scratch1
  let mem := update mem Fout (C_ADD (mem Fout) scratch1)
  let scratch3 := C_ADD scratch0 scratch2
  let scratch4 := C_SUB scratch0 scratch2
  let mem := update mem (Fout + m2) (C_SUB (mem Fout) scratch3)
  let mem := update mem Fout (C_ADD (mem Fout) scratch3)
  if st.inverse then
    let mem := update mem (Fout + m) ⟨scratch5.r - scratch4.i, scratch5.i + scratch4.r⟩
    update mem (Fout + m3) ⟨scratch5.r + scratch4.i, scratch5.i - scratch4.r⟩
  else
    let mem := update mem (Fout + m) ⟨scratch5.r + scratch4.i, scratch5.i - scratch4.r⟩
    update mem (Fout + m3) ⟨scratch5.r - scratch4.i, scratch5.i + scratch4.r⟩

def kf_bfly4 (Fout fstride : Nat) (st : Cfg R) (m : Nat) (mem : Nat → Cpx R) : Nat → Cpx R :=
  (List.range m).foldl (bfly4_turn Fout fstride st m) mem

/-- One turn of the loop of `kf_bfly3`. -/
def bfly3_turn (Fout fstride : Nat) (st : Cfg R) (m : Nat) (mem : Nat → Cpx R) (k : Nat) :
    Nat → Cpx R :=
  let Fout := Fout + k
  let m2 := 2 * m
  let epi3 := st.twiddles (fstride * m)
  let scratch1 := C_MUL (mem (Fout + m)) (st.twiddles (k * fstride))
  let scratch2 := C_MUL (mem (Fout + m2)) (st.twiddles (k * (fstride * 2)))
  let scratch3 := C_ADD scratch1 scratch2
  let scratch0 := C_SUB scratch1 scratch2
  let mem := update mem (Fout + m)
    ⟨(mem Fout).r - HALF_OF scratch3.r, (mem Fout).i - HALF_OF scratch3.i⟩
  let scratch0 := C_MULBYSCALAR scratch0 epi3.i
  let mem := update mem Fout (C_ADD (mem Fout) scratch3)
  let mem := update mem (Fout + m2)
    ⟨(mem (Fout + m)).r + scratch0.i, (mem (Fout + m)).i - scratch0.r⟩
  update mem (Fout + m) ⟨(mem (Fout + m)).r - scratch0.i, (mem (Fout + m)).i + scratch0.r⟩

def kf_bfly3 (Fout fstride : Nat) (st : Cfg R) (m : Nat) (mem : Nat → Cpx R) : Nat → Cpx R :=
  (List.range m).foldl (bfly3_turn Fout fstride st m) mem

/-- One turn of the loop of `kf_bfly5`. -/
def bfly5_turn (Fout fstride : Nat) (st : Cfg R) (m : Nat) (mem : Nat → Cpx R) (u : Nat) :
    Nat → Cpx R :=
  let ya := st.twiddles (fstride * m)
  let yb := st.twiddles (fstride * 2 * m)
  let Fout0 := Fout + u
  let Fout1 := Fout + u + m
  let Fout2 := Fout + u + 2 * m
  let Fout3 := Fout + u + 3 * m
  let Fout4 := Fout + u + 4 * m
  let scratch0 := mem Fout0
  let scratch1 := C_MUL (mem Fout1) (st.twiddles (u * fstride))
  let scratch2 := C_MUL (mem Fout2) (st.twiddles (2 * u * fstride))
  let scratch3 := C_MUL (mem Fout3) (st.twiddles (3 * u * fstride))
  let scratch4 := C_MUL (mem Fout4) (st.twiddles (4 * u * fstride))
  let scratch7 := C_ADD scratch1 scratch4
  let scratch10 := C_SUB scratch1 scratch4
  let scratch8 := C_ADD scratch2 scratch3
  let scratch9 := C_SUB scratch2 scratch3
  let mem := update mem Fout0
    ⟨(mem Fout0).r + (scratch7.r + scratch8.r), (mem Fout0).i + (scratch7.i + scratch8.i)⟩
  let scratch5 : Cpx R :=
    ⟨scratch0.r + S_MUL scratch7.r ya.r + S_MUL scratch8.r yb.r,
      scratch0.i + S_MUL scratch7.i ya.r + S_MUL scratch8.i yb.r⟩
  let scratch6 : Cpx R :=
    ⟨S_MUL scratch10.i ya.i + S_MUL scratch9.i yb.i,
      -S_MUL scratch10.r ya.i - S_MUL scratch9.r yb.i⟩
  let mem := update mem Fout1 (C_SUB scratch5 scratch6)
  let mem := update mem Fout4 (C_ADD scratch5 scratch6)
  let scratch11 : Cpx R :=
    ⟨scratch0.r + S_MUL scratch7.r yb.r + S_MUL scratch8.r ya.r,
      scratch0.i + S_MUL scratch7.i yb.r + S_MUL scratch8.i ya.r⟩
  let scratch12 : Cpx R :=
    ⟨-S_MUL scratch10.i yb.i + S_MUL scratch9.i ya.i,
      S_MUL scratch10.r yb.i - S_MUL scratch9.r ya.i⟩
  let mem := update mem Fout2 (C_ADD scratch11 scratch12)
  update mem Fout3 (C_SUB scratch11 scratch12)

def kf_bfly5 (Fout fstride : Nat) (st : Cfg R) (m : Nat) (mem : Nat → Cpx R) : Nat → Cpx R :=
  (List.range m).foldl (bfly5_turn Fout fstride st m) mem

/-- One turn of the loop over `q` of `kf_bfly_generic`: what is in `Fout[k]`, and `twidx`. -/
def generic_step (fstride : Nat) (st : Cfg R) (k : Nat) (scratch : Nat → Cpx R) :
    Cpx R × Int → Nat → Cpx R × Int
  | (t, twidx), q =>
    -- the sum is one of `size_t`, of which an `int` keeps 32 bits
    let twidx := Int.bmod (twidx + (fstride * k : Nat)) (2 ^ 32)
    let twidx := if st.nfft ≤ twidx then twidx - st.nfft else twidx
    (C_ADD t (C_MUL (scratch q) (st.twiddle twidx)), twidx)

def generic_sum (fstride : Nat) (st : Cfg R) (p k : Nat) (scratch : Nat → Cpx R) : Cpx R :=
  ((List.range (p - 1)).foldl (fun s q => generic_step fstride st k scratch s (q + 1))
    (scratch 0, 0)).1

/-- One turn of the loop over `u` of `kf_bfly_generic`. -/
def generic_turn (Fout fstride : Nat) (st : Cfg R) (m p : Nat) (mem : Nat → Cpx R) (u : Nat) :
    Nat → Cpx R :=
  let scratch := fun q1 => mem (Fout + (u + q1 * m))
  (List.range p).foldl (fun mem q1 =>
    let k := u + q1 * m
    update mem (Fout + k) (generic_sum fstride st p k scratch)) mem

def kf_bfly_generic (Fout fstride : Nat) (st : Cfg R) (m p : Nat) (mem : Nat → Cpx R) :
    Nat → Cpx R :=
  (List.range m).foldl (generic_turn Fout fstride st m p) mem

/-! ## Transforms of 2, 3, 4 and 5 numbers -/

section Points

variable {e : Cpx R} (y : Nat → Cpx R)

theorem dft_two (he : e = -1) (q : Nat) (hq : q < 2) :
    dft e 2 y q = if q = 0 then y 0 + y 1 else y 0 - y 1 := by
  subst he
  interval_cases q
  · simp [dft, Finset.sum_range_succ]
  · simp [dft, Finset.sum_range_succ]
    ring

theorem dft_four {i : Cpx R} (hi : i * i = -1) (q : Nat) (hq : q < 4) :
    dft i 4 y q =
      if q = 0 then y 0 + y 2 + (y 1 + y 3)
      else if q = 1 then y 0 - y 2 + i * (y 1 - y 3)
      else if q = 2 then y 0 + y 2 - (y 1 + y 3)
      else y 0 - y 2 - i * (y 1 - y 3) := by
  have htwo : i ^ 2 = -1 := by rw [pow_two, hi]
  have hfour : i ^ 4 = 1 := by
    rw [show 4 = 2 * 2 from rfl, pow_mul, htwo]
    ring
  interval_cases q
  · simp [dft, Finset.sum_range_succ]
    ring
  · simp [dft, Finset.sum_range_succ]
    linear_combination (y 2 + y 3 * i) * htwo
  · simp [dft, Finset.sum_range_succ]
    linear_combination (y 1 + y 3 * i ^ 4 - y 3 * i ^ 2 + y 3) * htwo + y 2 * hfour
  · simp [dft, Finset.sum_range_succ]
    linear_combination (y 1 * i + y 2) * htwo + (y 2 * i ^ 2 + y 3 * i * (1 + i ^ 4)) * hfour

/-- The third and the fifth part of a turn, by what their powers add up to. -/
theorem pow_pred {n : Nat} (h : e ^ (n + 1) = 1) (hconj : e * Cpx.conj e = 1) :
    e ^ n = Cpx.conj e := by
  calc e ^ n = e ^ n * (e * Cpx.conj e) := by rw [hconj, mul_one]
    _ = e ^ (n + 1) * Cpx.conj e := by rw [pow_succ, mul_assoc]
    _ = Cpx.conj e := by rw [h, one_mul]

theorem dft_three (h : e ^ 3 = 1) (hconj : e * Cpx.conj e = 1) (q : Nat) (hq : q < 3) :
    dft e 3 y q =
      if q = 0 then y 0 + (y 1 + y 2)
      else if q = 1 then y 0 + (y 1 * e + y 2 * Cpx.conj e)
      else y 0 + (y 1 * Cpx.conj e + y 2 * e) := by
  have htwo : e ^ 2 = Cpx.conj e := pow_pred h hconj
  interval_cases q
  · simp [dft, Finset.sum_range_succ]
    ring
  · simp [dft, Finset.sum_range_succ]
    linear_combination y 2 * htwo
  · simp [dft, Finset.sum_range_succ]
    linear_combination y 1 * htwo + y 2 * e * h

theorem dft_five (h : e ^ 5 = 1) (hconj : e * Cpx.conj e = 1) (q : Nat) (hq : q < 5) :
    dft e 5 y q =
      if q = 0 then y 0 + (y 1 + y 4) + (y 2 + y 3)
      else if q = 1 then y 0 + (y 1 * e + y 4 * Cpx.conj e) +
        (y 2 * e ^ 2 + y 3 * Cpx.conj (e ^ 2))
      else if q = 2 then y 0 + (y 1 * e ^ 2 + y 4 * Cpx.conj (e ^ 2)) +
        (y 2 * Cpx.conj e + y 3 * e)
      else if q = 3 then y 0 + (y 1 * Cpx.conj (e ^ 2) + y 4 * e ^ 2) +
        (y 2 * e + y 3 * Cpx.conj e)
      else y 0 + (y 1 * Cpx.conj e + y 4 * e) + (y 2 * Cpx.conj (e ^ 2) + y 3 * e ^ 2) := by
  have hfour : e ^ 4 = Cpx.conj e := pow_pred h hconj
  have hthree : e ^ 3 = Cpx.conj (e ^ 2) := by
    rw [map_pow, ← hfour, ← pow_mul, show 4 * 2 = 3 + 5 from rfl, pow_add, h, mul_one]
  rw [← hthree, ← hfour]
  interval_cases q
  · simp [dft, Finset.sum_range_succ]
    ring
  · simp [dft, Finset.sum_range_succ]
    ring
  · simp [dft, Finset.sum_range_succ]
    linear_combination (y 3 * e + y 4 * e ^ 3) * h
  · simp [dft, Finset.sum_range_succ]
    linear_combination (y 2 * e + y 3 * e ^ 4 + y 4 * (e ^ 7 + e ^ 2)) * h
  · simp [dft, Finset.sum_range_succ]
    linear_combination (y 2 * e ^ 3 + y 3 * (e ^ 7 + e ^ 2) + y 4 * (e ^ 11 + e ^ 6 + e)) * h

end Points

/-! ## The columns -/

section Turns

variable {fstride m : Nat} {st : Cfg R} {w : Cpx R}

/-- What a column of `p` numbers becomes: they are turned by powers of `w`, and transformed. -/
def rotated (w : Cpx R) (p m u : Nat) (x : Nat → Cpx R) (q : Nat) : Cpx R :=
  dft (w ^ m) p (fun q => x q * w ^ (q * u)) q

/-- The twiddles that a stage reads are powers of `w`. -/
def Reads (st : Cfg R) (fstride : Nat) (w : Cpx R) (p m : Nat) : Prop :=
  ∀ i < p * m, st.twiddles (i * fstride) = w ^ i

theorem Reads.turned {p u q : Nat} (h : Reads st fstride w p m) (hu : u < m) (hq : q < p) :
    st.twiddles (q * u * fstride) = w ^ (q * u) :=
  h _ (Nat.mul_lt_mul'' hq hu)

theorem Reads.point {p q : Nat} (h : Reads st fstride w p m) (hm : 0 < m) (hq : q < p) :
    st.twiddles (q * m * fstride) = (w ^ m) ^ q := by
  rw [h _ (Nat.mul_lt_mul_of_pos_right hq hm), Nat.mul_comm, pow_mul]

theorem kf_bfly2_pass (Fout : Nat) (h : Reads st fstride w 2 m) (he : w ^ m = -1) :
    Pass (bfly2_turn Fout fstride st m) Fout 2 m (rotated w 2 m) where
  row mem u hu q hq := by
    have hread : st.twiddles (u * fstride) = w ^ u := h u (by omega)
    rw [rotated, dft_two _ he q hq]
    interval_cases q <;>
      simp (disch := omega) only [bfly2_turn, Columns.column, Function.update_self,
        Function.update_of_ne, Nat.zero_mul, Nat.one_mul, Nat.add_zero, ← Nat.add_assoc, hread]
    · simp
    · simp
  rest mem u hu a ha := by
    have h0 := ha 0 (by decide)
    have h1 := ha 1 (by decide)
    simp (disch := omega) only [bfly2_turn, Function.update_of_ne]

theorem kf_bfly4_pass (Fout : Nat) (h : Reads st fstride w 4 m)
    (he : w ^ m = if st.inverse then Cpx.I else -Cpx.I) :
    Pass (bfly4_turn Fout fstride st m) Fout 4 m (rotated w 4 m) where
  row mem u hu q hq := by
    have hread1 : st.twiddles (u * fstride) = w ^ u := h u (by omega)
    have hread2 : st.twiddles (u * (fstride * 2)) = w ^ (2 * u) := by
      rw [show u * (fstride * 2) = 2 * u * fstride by ring, h.turned hu (by decide)]
    have hread3 : st.twiddles (u * (fstride * 3)) = w ^ (3 * u) := by
      rw [show u * (fstride * 3) = 3 * u * fstride by ring, h.turned hu (by decide)]
    have hquarter : w ^ m * w ^ m = -1 := by
      rw [he]
      split
      · exact Cpx.I_mul_I
      · rw [neg_mul_neg, Cpx.I_mul_I]
    rw [rotated, dft_four _ hquarter q hq, he]
    cases hinv : st.inverse <;> interval_cases q <;>
      simp (disch := omega) only [bfly4_turn, Columns.column, Function.update_self,
        Function.update_of_ne, Nat.zero_mul, Nat.one_mul, Nat.add_zero, ← Nat.add_assoc, hinv,
        hread1, hread2, hread3, if_true, Bool.false_eq_true, if_false] <;>
      ext <;> simp <;> ring
  rest mem u hu a ha := by
    have h0 := ha 0 (by decide)
    have h1 := ha 1 (by decide)
    have h2 := ha 2 (by decide)
    have h3 := ha 3 (by decide)
    cases hinv : st.inverse <;>
      simp (disch := omega) only [bfly4_turn, Function.update_of_ne, hinv, if_true,
        Bool.false_eq_true, if_false]

theorem kf_bfly3_pass (Fout : Nat) (h : Reads st fstride w 3 m) (htwo : (2 : R) ≠ 0)
    (he : Dft.Principal (w ^ m) 3) (hconj : w ^ m * Cpx.conj (w ^ m) = 1) :
    Pass (bfly3_turn Fout fstride st m) Fout 3 m (rotated w 3 m) where
  row mem u hu q hq := by
    have hepi3 : st.twiddles (fstride * m) = w ^ m := by
      rw [Nat.mul_comm, h m (by omega)]
    have hread1 : st.twiddles (u * fstride) = w ^ u := h u (by omega)
    have hread2 : st.twiddles (u * (fstride * 2)) = w ^ (2 * u) := by
      rw [show u * (fstride * 2) = 2 * u * fstride by ring, h.turned hu (by decide)]
    -- the third part of a turn goes back by a half
    have hhalf : (w ^ m).r = -2⁻¹ := by
      have hsum := he.sum_eq_zero 1 (by decide) (by decide)
      have hsquare : (w ^ m) ^ 2 = Cpx.conj (w ^ m) := pow_pred he.pow_eq_one hconj
      simp only [Finset.sum_range_succ, Finset.sum_range_zero, Nat.one_mul, pow_zero, pow_one,
        zero_add, hsquare] at hsum
      have hr := congrArg Cpx.r hsum
      simp only [Cpx.add_r, Cpx.one_r, Cpx.conj_r, Cpx.zero_r] at hr
      have hmul : 2 * (w ^ m).r = -1 := by linear_combination hr
      field_simp
      linear_combination hmul
    rw [rotated, dft_three _ he.pow_eq_one hconj q hq]
    generalize w ^ m = e at hepi3 hhalf
    interval_cases q <;>
      simp (disch := omega) only [bfly3_turn, Columns.column, Function.update_self,
        Function.update_of_ne, Nat.zero_mul, Nat.one_mul, Nat.add_zero, ← Nat.add_assoc, hepi3,
        hread1, hread2] <;>
      ext <;> simp [HALF_OF, C_MULBYSCALAR, hhalf] <;> ring
  rest mem u hu a ha := by
    have h0 := ha 0 (by decide)
    have h1 := ha 1 (by decide)
    have h2 := ha 2 (by decide)
    simp (disch := omega) only [bfly3_turn, Function.update_of_ne]

theorem kf_bfly5_pass (Fout : Nat) (h : Reads st fstride w 5 m) (he : (w ^ m) ^ 5 = 1)
    (hconj : w ^ m * Cpx.conj (w ^ m) = 1) :
    Pass (bfly5_turn Fout fstride st m) Fout 5 m (rotated w 5 m) where
  row mem u hu q hq := by
    have hya : st.twiddles (fstride * m) = w ^ m := by
      rw [Nat.mul_comm, h m (by omega)]
    have hyb : st.twiddles (fstride * 2 * m) = (w ^ m) ^ 2 := by
      rw [show fstride * 2 * m = 2 * m * fstride by ring, h.point (by omega) (by decide)]
    have hread1 : st.twiddles (u * fstride) = w ^ u := h u (by omega)
    have hread : ∀ q < 5, st.twiddles (q * u * fstride) = w ^ (q * u) := fun q => h.turned hu
    rw [rotated, dft_five _ he hconj q hq]
    generalize w ^ m = e at hya hyb
    generalize e ^ 2 = f at hyb
    interval_cases q <;>
      simp (disch := omega) only [bfly5_turn, Columns.column, Function.update_self,
        Function.update_of_ne, Nat.zero_mul, Nat.one_mul, Nat.add_zero, ← Nat.add_assoc, hya, hyb,
        hread1, hread] <;>
      ext <;> simp [S_MUL] <;> ring
  rest mem u hu a ha := by
    have h0 := ha 0 (by decide)
    have h1 := ha 1 (by decide)
    have h2 := ha 2 (by decide)
    have h3 := ha 3 (by decide)
    have h4 := ha 4 (by decide)
    simp (disch := omega) only [bfly5_turn, Function.update_of_ne]

theorem wrap_add {n f a b : Nat} (hf : 0 < f) (ha : a < n) (hb : b < n) :
    (if n * f ≤ (a + b) * f then (a + b) * f - n * f else (a + b) * f) = (a + b) % n * f := by
  split
  · rename_i hle
    have hle := Nat.le_of_mul_le_mul_right hle hf
    rw [Nat.mod_eq_sub_mod hle, Nat.mod_eq_of_lt (by omega), Nat.sub_mul]
  · rename_i hlt
    rw [Nat.mod_eq_of_lt (Nat.lt_of_mul_lt_mul_right (Nat.lt_of_not_le hlt))]

/-- Up to this length two numbers below it add up to an `int`. -/
def max_nfft : Nat := 2 ^ 30

theorem twidx_step {nfft a b : Nat} (hnfft : nfft ≤ max_nfft) (ha : a < nfft) (hb : b < nfft) :
    (let twidx := Int.bmod (a + b) (2 ^ 32)
      if nfft ≤ twidx then twidx - nfft else twidx) =
      (if nfft ≤ a + b then a + b - nfft else a + b : Nat) := by
  have hfits : Int.bmod (a + b) (2 ^ 32) = (a + b : Int) := by
    have hmax : a + b < 2 ^ 31 := Nat.lt_of_lt_of_le (Nat.add_lt_add ha hb)
      (Nat.add_le_add hnfft hnfft)
    exact Int.bmod_eq_of_le (by omega) (by omega)
  dsimp only
  rw [hfits]
  split <;> split <;> omega

/-- `twidx` goes round with the power of `w`. -/
theorem generic_steps {p k : Nat} (h : Reads st fstride w p m)
    (hnfft : st.nfft = p * m * fstride) (hpos : 0 < st.nfft) (hsmall : st.nfft ≤ max_nfft)
    (hone : w ^ (p * m) = 1) (hk : k < p * m) (scratch : Nat → Cpx R) (n : Nat) :
    (List.range n).foldl (fun s q => generic_step fstride st k scratch s (q + 1)) (scratch 0, 0) =
      (dft w (n + 1) scratch k, ((n * k % (p * m) * fstride : Nat) : Int)) := by
  have hf : 0 < fstride := Nat.pos_of_ne_zero fun hzero => by simp [hnfft, hzero] at hpos
  have hplace : ∀ a < p * m, a * fstride < st.nfft := by
    intro a ha
    rw [hnfft]
    exact Nat.mul_lt_mul_of_pos_right ha hf
  induction n with
  | zero => simp [dft]
  | succ n ih =>
    have hmod : n * k % (p * m) < p * m := Nat.mod_lt _ (by omega)
    rw [List.range_succ, List.foldl_append, ih, List.foldl_cons, List.foldl_nil, generic_step]
    have hround := twidx_step hsmall (hplace _ hmod) (hplace k hk)
    rw [hnfft, ← Nat.add_mul, wrap_add hf hmod hk, Nat.mod_add_mod, ← Nat.succ_mul, ← hnfft]
      at hround
    rw [Nat.mul_comm fstride k]
    dsimp only at hround ⊢
    rw [hround]
    have hread : st.twiddle ((n + 1) * k % (p * m) * fstride : Nat) = w ^ ((n + 1) * k) := by
      rw [← Dft.pow_mod hone]
      exact h _ (Nat.mod_lt _ (by omega))
    rw [hread]
    simp only [dft, Finset.sum_range_succ, C_ADD_eq, C_MUL_eq]

theorem kf_bfly_generic_pass (Fout : Nat) {p : Nat} (h : Reads st fstride w p m)
    (hnfft : st.nfft = p * m * fstride) (hpos : 0 < st.nfft) (hsmall : st.nfft ≤ max_nfft)
    (hone : w ^ (p * m) = 1) :
    Pass (generic_turn Fout fstride st m p) Fout p m (rotated w p m) where
  row mem u hu q hq := by
    have hplace : ∀ j < p, j ≠ q → Fout + (u + q * m) ≠ Fout + (u + j * m) :=
      fun j _ hne => Columns.cell_ne_row (by omega) (Ne.symm hne)
    have hin : u + q * m < p * m := by
      have hrow : (q + 1) * m ≤ p * m := Nat.mul_le_mul_right m hq
      rw [Nat.succ_mul] at hrow
      omega
    have hsum : generic_sum fstride st p (u + q * m) (Columns.column mem Fout m u) =
        rotated w p m u (Columns.column mem Fout m u) q := by
      rw [generic_sum, generic_steps h hnfft hpos hsmall hone hin, show p - 1 + 1 = p by omega]
      simp only [rotated, dft]
      refine Finset.sum_congr rfl fun j _ => ?_
      rw [mul_assoc, ← pow_mul, ← pow_add, Nat.mul_add, Nat.mul_left_comm m, Nat.mul_comm m,
        Nat.mul_comm q]
    rw [← hsum]
    exact Loop.foldl_update (fun q => Fout + (u + q * m)) _ mem hq hplace
  rest mem u hu a ha := Loop.foldl_update_of_ne (fun q => Fout + (u + q * m)) _ mem ha

end Turns

end KissFft
end SoundScreen
