import SoundScreen.KissFft.Work

/-!
# SoundScreen.KissFft.Real

`tools/kiss_fftr.c`: the transform of real numbers by a complex transform of half the length, whose
input are the numbers in pairs, and the way back, in exact arithmetic.

* `kiss_fftr_eq`: the result is the first half of the discrete Fourier transform.
* `kiss_fftri_eq`: from the first half of a transform of real numbers the way back gives them,
  `nfft` times.
* `kiss_fftri_kiss_fftr`: both together, for every even length that `kiss_fftr_alloc` can allocate
  for.
-/

namespace SoundScreen
namespace KissFft

open Function (update)
open Dft (dft)

variable {R : Type*} [Field R]

/-- `kiss_fftr_state`. -/
structure RCfg (R : Type*) where
  substate : Cfg R
  tmpbuf : Nat → Cpx R
  super_twiddles : Nat → Cpx R
deriving Inhabited

/-! ## The source -/

/-- `(kiss_fft_cpx *) timedata`. -/
def as_cpx (timedata : Nat → R) : Nat → Cpx R := fun k => ⟨timedata (2 * k), timedata (2 * k + 1)⟩

/-- What is in `timedata` when it has been written to as `kiss_fft_cpx`. -/
def as_scalar (out : Nat → Cpx R) : Nat → R :=
  fun i => if i % 2 = 0 then (out (i / 2)).r else (out (i / 2)).i

/-- `none` is `NULL`, or that `nfft * 3 / 2` overflows; `memory` is what was in the parts of the
block that is allocated. -/
def kiss_fftr_alloc (lib : Libm R) (nfft : Nat) (inverse_fft : Bool) (memory : RCfg R) :
    Option (RCfg R) :=
  if nfft % 2 = 1 then
    none
  else
    let nfft := nfft / 2
    if INT_MAX < nfft * 3 then
      none
    else
      some
        { substate := kiss_fft_alloc lib nfft inverse_fft memory.substate
          tmpbuf := memory.tmpbuf
          super_twiddles := (List.range (nfft / 2)).foldl (fun super_twiddles (i : Nat) =>
            let phase := -lib.pi * ((i + 1 : Nat) / nfft + 2⁻¹)
            let phase := if inverse_fft then phase * -1 else phase
            update super_twiddles i (kf_cexp lib phase)) memory.super_twiddles }

/-- One turn of the loop of `kiss_fftr`, for `k + 1`. -/
def fftr_turn (st : RCfg R) (ncfft : Nat) (freqdata : Nat → Cpx R) (k : Nat) : Nat → Cpx R :=
  let k := k + 1
  let fpk := st.tmpbuf k
  let fpnk : Cpx R := ⟨(st.tmpbuf (ncfft - k)).r, -(st.tmpbuf (ncfft - k)).i⟩
  let f1k := C_ADD fpk fpnk
  let f2k := C_SUB fpk fpnk
  let tw := C_MUL f2k (st.super_twiddles (k - 1))
  let freqdata := update freqdata k ⟨HALF_OF (f1k.r + tw.r), HALF_OF (f1k.i + tw.i)⟩
  update freqdata (ncfft - k) ⟨HALF_OF (f1k.r - tw.r), HALF_OF (tw.i - f1k.i)⟩

/-- The state with its new `tmpbuf`, and `freqdata`; `none` is `exit(1)`. -/
def kiss_fftr (st : RCfg R) (timedata : Nat → R) (freqdata : Nat → Cpx R) :
    Option (RCfg R × (Nat → Cpx R)) :=
  if st.substate.inverse then
    none
  else
    let ncfft := st.substate.nfft
    let st := { st with
      tmpbuf := kiss_fft st.substate st.tmpbuf (some (as_cpx timedata)) st.tmpbuf }
    let tdc := st.tmpbuf 0
    let freqdata := update freqdata 0 ⟨tdc.r + tdc.i, 0⟩
    let freqdata := update freqdata ncfft ⟨tdc.r - tdc.i, 0⟩
    some (st, (List.range (ncfft / 2)).foldl (fftr_turn st ncfft) freqdata)

/-- One turn of the loop of `kiss_fftri`, for `k + 1`: what `tmpbuf` becomes. -/
def fftri_turn (st : RCfg R) (ncfft : Nat) (freqdata : Nat → Cpx R) (tmpbuf : Nat → Cpx R)
    (k : Nat) : Nat → Cpx R :=
  let k := k + 1
  let fk := freqdata k
  let fnkc : Cpx R := ⟨(freqdata (ncfft - k)).r, -(freqdata (ncfft - k)).i⟩
  let fek := C_ADD fk fnkc
  let tmp := C_SUB fk fnkc
  let fok := C_MUL tmp (st.super_twiddles (k - 1))
  let tmpbuf := update tmpbuf k (C_ADD fek fok)
  let tmpbuf := update tmpbuf (ncfft - k) (C_SUB fek fok)
  update tmpbuf (ncfft - k) ⟨(tmpbuf (ncfft - k)).r, (tmpbuf (ncfft - k)).i * -1⟩

/-- The state with its new `tmpbuf`, and `timedata`; `none` is `exit(1)`. -/
def kiss_fftri (st : RCfg R) (freqdata : Nat → Cpx R) (timedata : Nat → R) :
    Option (RCfg R × (Nat → R)) :=
  if st.substate.inverse then
    let ncfft := st.substate.nfft
    let tmpbuf := update st.tmpbuf 0
      ⟨(freqdata 0).r + (freqdata ncfft).r, (freqdata 0).r - (freqdata ncfft).r⟩
    let tmpbuf := (List.range (ncfft / 2)).foldl (fftri_turn st ncfft freqdata) tmpbuf
    some ({ st with tmpbuf := tmpbuf },
      as_scalar (kiss_fft st.substate tmpbuf (some tmpbuf) (as_cpx timedata)))
  else
    none

/-! ## Real numbers in pairs -/

section Halves

variable (lib : Libm R) (n : Nat) (x : Nat → R)

/-- The spectrum of `2 * n` real numbers. -/
def spectrum (k : Nat) : Cpx R :=
  dft (turn lib false (2 * n)) (2 * n) (fun j => Cpx.ofReal (x j)) k

/-- The transform of the numbers in even places. -/
def evens (k : Nat) : Cpx R := dft (turn lib false n) n (fun j => Cpx.ofReal (x (2 * j))) k

/-- The transform of the numbers in odd places. -/
def odds (k : Nat) : Cpx R := dft (turn lib false n) n (fun j => Cpx.ofReal (x (2 * j + 1))) k

variable {n}

theorem turn_half (hn : 0 < n) : turn lib false (2 * n) ^ n = -1 := by
  rw [turn_pow lib false hn, turn_two]

theorem spectrum_split (hn : 0 < n) (k v : Nat) :
    spectrum lib n x (k + v * n) =
      evens lib n x k + turn lib false (2 * n) ^ k * odds lib n x k * (-1) ^ v := by
  have hone := (principal_turn lib false (n := 2 * n) (by omega)).pow_eq_one
  have hsub : turn lib false (2 * n) ^ 2 = turn lib false n := by
    rw [Nat.mul_comm]
    exact turn_pow lib false (by decide)
  rw [spectrum, Dft.dft_radix hone, turn_half lib hn, hsub, dft, Finset.sum_range_succ,
    Finset.sum_range_one, evens, odds]
  simp only [Nat.zero_add, Nat.zero_mul, pow_zero, mul_one, Nat.one_mul, Nat.mul_comm _ 2,
    Nat.add_comm 1]
  ring

/-- What `kiss_fft` makes of the pairs. -/
theorem dft_pairs (k : Nat) :
    dft (turn lib false n) n (as_cpx x) k = evens lib n x k + Cpx.I * odds lib n x k := by
  rw [evens, odds, ← Dft.dft_mul_left, ← Dft.dft_add]
  refine Dft.dft_congr ?_ k
  intro j _
  ext <;> simp [as_cpx]

theorem conj_evens (hn : 0 < n) {k : Nat} (hk : k ≤ n) :
    Cpx.conj (evens lib n x (n - k)) = evens lib n x k :=
  Dft.map_dft (principal_turn lib false hn).pow_eq_one (turn_mul_conj lib false n)
    (fun _ _ => Cpx.conj_ofReal _) hk

theorem conj_odds (hn : 0 < n) {k : Nat} (hk : k ≤ n) :
    Cpx.conj (odds lib n x (n - k)) = odds lib n x k :=
  Dft.map_dft (principal_turn lib false hn).pow_eq_one (turn_mul_conj lib false n)
    (fun _ _ => Cpx.conj_ofReal _) hk

theorem spectrum_eq (hn : 0 < n) (k : Nat) :
    spectrum lib n x k = evens lib n x k + turn lib false (2 * n) ^ k * odds lib n x k := by
  have hsplit := spectrum_split lib x hn k 0
  rwa [Nat.zero_mul, Nat.add_zero, pow_zero, mul_one] at hsplit

/-- The other half of the spectrum. -/
theorem conj_spectrum (hn : 0 < n) {k : Nat} (hk : k ≤ n) :
    Cpx.conj (spectrum lib n x (n - k)) =
      evens lib n x k - turn lib false (2 * n) ^ k * odds lib n x k := by
  have hturn : Cpx.conj (turn lib false (2 * n)) ^ (n - k) = -turn lib false (2 * n) ^ k := by
    have hconj := turn_mul_conj lib false (2 * n)
    calc Cpx.conj (turn lib false (2 * n)) ^ (n - k)
        = -(turn lib false (2 * n) ^ n * Cpx.conj (turn lib false (2 * n)) ^ (n - k)) := by
          rw [turn_half lib hn, neg_one_mul, neg_neg]
      _ = -(turn lib false (2 * n) ^ k *
            (turn lib false (2 * n) * Cpx.conj (turn lib false (2 * n))) ^ (n - k)) := by
          rw [mul_pow, ← mul_assoc, ← pow_add, Nat.add_sub_cancel' hk]
      _ = -turn lib false (2 * n) ^ k := by rw [hconj, one_pow, mul_one]
  rw [spectrum_eq lib x hn, map_add, map_mul, map_pow, hturn, conj_evens lib x hn hk,
    conj_odds lib x hn hk]
  ring

theorem conj_pairs (hn : 0 < n) {k : Nat} (hk : k ≤ n) :
    Cpx.conj (dft (turn lib false n) n (as_cpx x) (n - k)) =
      evens lib n x k - Cpx.I * odds lib n x k := by
  rw [dft_pairs, map_add, map_mul, Cpx.conj_I, conj_evens lib x hn hk, conj_odds lib x hn hk]
  ring

/-- The first coefficients are real. -/
theorem first_i (hn : 0 < n) : (evens lib n x 0).i = 0 ∧ (odds lib n x 0).i = 0 := by
  have hreal : ∀ a : Cpx R, Cpx.conj a = a → a.i = 0 := by
    intro a ha
    have hi := congrArg Cpx.i ha
    rw [Cpx.conj_i] at hi
    have htwice : 2 * a.i = 0 := by linear_combination -hi
    exact (mul_eq_zero.mp htwice).resolve_left lib.two_ne_zero
  have hone := (principal_turn lib false hn).pow_eq_one
  have hround : ∀ y : Nat → R, dft (turn lib false n) n (fun j => Cpx.ofReal (y j)) (n - 0) =
      dft (turn lib false n) n (fun j => Cpx.ofReal (y j)) 0 := by
    intro y
    rw [Nat.sub_zero, ← Dft.dft_mod hone, Nat.mod_self]
  refine ⟨hreal _ ?_, hreal _ ?_⟩
  · have hconj := conj_evens lib x hn (Nat.zero_le n)
    rwa [evens, hround] at hconj
  · have hconj := conj_odds lib x hn (Nat.zero_le n)
    rwa [odds, hround] at hconj

end Halves

/-! ## The state -/

section State

variable {lib : Libm R} {n : Nat} {inverse_fft : Bool} {st : RCfg R}

/-- A state as `kiss_fftr_alloc` leaves it for `2 * n` numbers. -/
structure RReady (lib : Libm R) (n : Nat) (inverse_fft : Bool) (st : RCfg R) : Prop where
  substate : Ready lib st.substate
  nfft : st.substate.nfft = n
  inverse : st.substate.inverse = inverse_fft
  super_twiddles : ∀ k < n / 2, st.super_twiddles k =
    turn lib inverse_fft (2 * n) ^ (k + 1) * if inverse_fft then Cpx.I else -Cpx.I

theorem RReady.tmpbuf (h : RReady lib n inverse_fft st) (tmpbuf : Nat → Cpx R) :
    RReady lib n inverse_fft { st with tmpbuf := tmpbuf } :=
  ⟨h.substate, h.nfft, h.inverse, h.super_twiddles⟩

theorem RReady.pos (h : RReady lib n inverse_fft st) : 0 < n := h.nfft ▸ h.substate.pos

theorem RReady.alloc (lib : Libm R) (hn : 0 < n) (hint : n * 3 ≤ INT_MAX) (inverse_fft : Bool)
    (memory : RCfg R) :
    ∃ st, kiss_fftr_alloc lib (2 * n) inverse_fft memory = some st ∧
      RReady lib n inverse_fft st := by
  have heven : ¬2 * n % 2 = 1 := by omega
  have hhalf : 2 * n / 2 = n := by omega
  have hsmall : n ≤ max_nfft := by
    simp only [INT_MAX, max_nfft] at hint ⊢
    omega
  rw [kiss_fftr_alloc, if_neg heven]
  dsimp only
  rw [hhalf, if_neg (Nat.not_lt.mpr hint)]
  refine ⟨_, rfl, .alloc lib hn hsmall inverse_fft _, rfl, rfl, ?_⟩
  intro k hk
  refine (Loop.foldl_update (fun i => i) (fun i : Nat =>
    let phase := -lib.pi * ((i + 1 : Nat) / n + 2⁻¹)
    let phase := if inverse_fft then phase * -1 else phase
    kf_cexp lib phase) memory.super_twiddles hk fun j _ hne => Ne.symm hne).trans ?_
  have hpart : 2 * lib.pi / (2 * n : Nat) = lib.pi / n := by
    rw [Nat.cast_mul, Nat.cast_two, mul_div_mul_left _ _ lib.two_ne_zero]
  rw [turn, hpart, ← kf_cexp_mul]
  cases inverse_fft with
  | false =>
    have hphase : -lib.pi * ((k + 1 : Nat) / n + 2⁻¹) =
        (k + 1 : Nat) * -(lib.pi / n) + -(lib.pi * 2⁻¹) := by
      ring
    simp only [Bool.false_eq_true, if_false]
    rw [hphase, kf_cexp_add, kf_cexp_neg lib (lib.pi * 2⁻¹), kf_cexp_quarter, Cpx.conj_I]
  | true =>
    have hphase : -lib.pi * ((k + 1 : Nat) / n + 2⁻¹) * -1 =
        (k + 1 : Nat) * (lib.pi / n) + lib.pi * 2⁻¹ := by
      ring
    simp only [if_true]
    rw [hphase, kf_cexp_add, kf_cexp_quarter]

end State

theorem two_mul_half (lib : Libm R) (a : R) : HALF_OF (2 * a) = a := by
  rw [HALF_OF, mul_comm, inv_mul_cancel_left₀ lib.two_ne_zero]

/-! ## The transform -/

section Forward

variable {lib : Libm R} {n : Nat} {st : RCfg R}

/-- A turn writes the coefficients `k + 1` and `n - (k + 1)` of the spectrum. -/
theorem fftr_turn_eq (h : RReady lib n false st) {x : Nat → R}
    (htmp : ∀ k < n, st.tmpbuf k = dft (turn lib false n) n (as_cpx x) k) {k : Nat}
    (hk : k < n / 2) (freqdata : Nat → Cpx R) :
    fftr_turn st n freqdata k =
      update (update freqdata (k + 1) (spectrum lib n x (k + 1))) (n - (k + 1))
        (spectrum lib n x (n - (k + 1))) := by
  have hpairs := htmp (k + 1) (by omega)
  rw [dft_pairs] at hpairs
  have hconj := conj_pairs lib x h.pos (show k + 1 ≤ n by omega)
  rw [← htmp (n - (k + 1)) (by omega)] at hconj
  have hfpnk : (⟨(st.tmpbuf (n - (k + 1))).r, -(st.tmpbuf (n - (k + 1))).i⟩ : Cpx R) =
      evens lib n x (k + 1) - Cpx.I * odds lib n x (k + 1) := hconj
  have htw : st.super_twiddles k = turn lib false (2 * n) ^ (k + 1) * -Cpx.I := by
    rw [h.super_twiddles k hk]
    rfl
  have hf1k : st.tmpbuf (k + 1) + (evens lib n x (k + 1) - Cpx.I * odds lib n x (k + 1)) =
      2 * evens lib n x (k + 1) := by
    rw [hpairs]
    ring
  have hf2k : (st.tmpbuf (k + 1) - (evens lib n x (k + 1) - Cpx.I * odds lib n x (k + 1))) *
      (turn lib false (2 * n) ^ (k + 1) * -Cpx.I) =
      2 * (turn lib false (2 * n) ^ (k + 1) * odds lib n x (k + 1)) := by
    rw [hpairs]
    linear_combination (-2 * turn lib false (2 * n) ^ (k + 1) * odds lib n x (k + 1)) *
      Cpx.I_mul_I (R := R)
  have hlow := spectrum_eq lib x h.pos (k + 1)
  have hhigh := congrArg Cpx.conj (conj_spectrum lib x h.pos (show k + 1 ≤ n by omega))
  rw [Cpx.conj_conj] at hhigh
  simp only [fftr_turn, C_ADD_eq, C_SUB_eq, C_MUL_eq, Nat.add_sub_cancel, hfpnk, htw, hf1k, hf2k,
    hlow, hhigh]
  have hvalue : ∀ a b : Cpx R,
      (⟨HALF_OF ((2 * a).r + (2 * b).r), HALF_OF ((2 * a).i + (2 * b).i)⟩ : Cpx R) = a + b ∧
      (⟨HALF_OF ((2 * a).r - (2 * b).r), HALF_OF ((2 * b).i - (2 * a).i)⟩ : Cpx R) =
        Cpx.conj (a - b) := by
    intro a b
    simp only [Cpx.two_mul_r, Cpx.two_mul_i, ← mul_add, ← mul_sub, two_mul_half lib]
    exact ⟨rfl, Cpx.ext rfl (neg_sub a.i b.i).symm⟩
  rw [(hvalue _ _).1, (hvalue _ _).2]

theorem RReady.kiss_fftr (h : RReady lib n false st) (x : Nat → R) (freqdata : Nat → Cpx R) :
    ∃ tmpbuf, kiss_fftr st x freqdata = some ({ st with tmpbuf := tmpbuf },
      fun k => if k ≤ n then spectrum lib n x k else freqdata k) := by
  have htmp : ∀ k < n, kiss_fft st.substate st.tmpbuf (some (as_cpx x)) st.tmpbuf k =
      dft (turn lib false n) n (as_cpx x) k := by
    intro k hk
    rw [h.substate.kiss_fft, h.nfft, h.inverse, if_pos hk, Option.getD_some]
  have hready := h.tmpbuf (kiss_fft st.substate st.tmpbuf (some (as_cpx x)) st.tmpbuf)
  rw [KissFft.kiss_fftr, h.inverse, if_neg (by decide), h.nfft]
  generalize kiss_fft st.substate st.tmpbuf (some (as_cpx x)) st.tmpbuf = tmpbuf at htmp hready
  refine ⟨tmpbuf, ?_⟩
  obtain ⟨heven, hodd⟩ := first_i lib x h.pos
  have hfirst : tmpbuf 0 = ⟨(evens lib n x 0).r, (odds lib n x 0).r⟩ := by
    rw [htmp 0 h.pos, dft_pairs]
    ext <;> simp [heven, hodd]
  have hzero : (⟨(tmpbuf 0).r + (tmpbuf 0).i, 0⟩ : Cpx R) = spectrum lib n x 0 := by
    rw [hfirst, spectrum_eq lib x h.pos]
    ext <;> simp [heven, hodd]
  have hlast : (⟨(tmpbuf 0).r - (tmpbuf 0).i, 0⟩ : Cpx R) = spectrum lib n x n := by
    have hsplit := spectrum_split lib x h.pos 0 1
    rw [Nat.zero_add, Nat.one_mul] at hsplit
    rw [hfirst, hsplit]
    ext <;> simp [heven, hodd, sub_eq_add_neg]
  have hstart : update (update freqdata 0 (spectrum lib n x 0)) n (spectrum lib n x n) =
      fun a => if a = 0 ∨ n ≤ a ∧ a < n + 1 then spectrum lib n x a else freqdata a := by
    have hnone : freqdata = fun a => if False then spectrum lib n x a else freqdata a := by
      simp only [if_false]
    rw [hnone, Loop.update_agree, Loop.update_agree]
    funext a
    have hiff : (False ∨ a = 0) ∨ a = n ↔ a = 0 ∨ n ≤ a ∧ a < n + 1 := by
      rw [false_or]
      omega
    simp only [hiff, if_false]
  have hloop := Loop.foldl_mirror (spectrum lib n x) freqdata (Nat.le_succ n) (Nat.succ_pos n)
    fun freqdata k hk => fftr_turn_eq hready htmp hk freqdata
  simp only [Nat.lt_succ_iff] at hloop hstart
  dsimp only
  rw [hzero, hlast, hstart, hloop]

end Forward

/-! ## The inverse transform -/

section Inverse

variable {lib : Libm R} {n : Nat} {st : RCfg R}

/-- A turn writes twice the coefficients `k + 1` and `n - (k + 1)` of the pairs. -/
theorem fftri_turn_eq (h : RReady lib n true st) {x : Nat → R} {freqdata : Nat → Cpx R}
    (hfreq : ∀ k ≤ n, freqdata k = spectrum lib n x k) {k : Nat} (hk : k < n / 2)
    (tmpbuf : Nat → Cpx R) :
    fftri_turn st n freqdata tmpbuf k =
      update (update tmpbuf (k + 1) (2 * dft (turn lib false n) n (as_cpx x) (k + 1))) (n - (k + 1))
        (2 * dft (turn lib false n) n (as_cpx x) (n - (k + 1))) := by
  have hconj := conj_spectrum lib x h.pos (show k + 1 ≤ n by omega)
  have hfnkc : (⟨(freqdata (n - (k + 1))).r, -(freqdata (n - (k + 1))).i⟩ : Cpx R) =
      evens lib n x (k + 1) - turn lib false (2 * n) ^ (k + 1) * odds lib n x (k + 1) := by
    rw [hfreq _ (by omega)]
    exact hconj
  have htw : st.super_twiddles k = turn lib true (2 * n) ^ (k + 1) * Cpx.I := by
    rw [h.super_twiddles k hk]
    rfl
  have hback : turn lib false (2 * n) ^ (k + 1) * turn lib true (2 * n) ^ (k + 1) = 1 := by
    have hinverse : turn lib false (2 * n) * turn lib true (2 * n) = 1 :=
      turn_mul_inverse lib false (2 * n)
    rw [← mul_pow, hinverse, one_pow]
  have hfk := spectrum_eq lib x h.pos (k + 1)
  have hfek : freqdata (k + 1) + (evens lib n x (k + 1) -
      turn lib false (2 * n) ^ (k + 1) * odds lib n x (k + 1)) = 2 * evens lib n x (k + 1) := by
    rw [hfreq _ (by omega), hfk]
    ring
  have hfok : (freqdata (k + 1) - (evens lib n x (k + 1) -
      turn lib false (2 * n) ^ (k + 1) * odds lib n x (k + 1))) *
      (turn lib true (2 * n) ^ (k + 1) * Cpx.I) = 2 * (Cpx.I * odds lib n x (k + 1)) := by
    rw [hfreq _ (by omega), hfk]
    linear_combination (2 * Cpx.I * odds lib n x (k + 1)) * hback
  have hlow := dft_pairs lib (n := n) x (k + 1)
  have hhigh := congrArg Cpx.conj (conj_pairs lib x h.pos (show k + 1 ≤ n by omega))
  rw [Cpx.conj_conj] at hhigh
  have htwice : ∀ a b : Cpx R, (⟨(2 * a - 2 * b).r, (2 * a - 2 * b).i * -1⟩ : Cpx R) =
      2 * Cpx.conj (a - b) := by
    intro a b
    rw [← mul_sub]
    ext
    · rw [Cpx.two_mul_r, Cpx.two_mul_r, Cpx.conj_r]
    · rw [Cpx.two_mul_i, Cpx.two_mul_i, Cpx.conj_i]
      ring
  simp only [fftri_turn, C_ADD_eq, C_SUB_eq, C_MUL_eq, Nat.add_sub_cancel, hfnkc, htw, hfek, hfok,
    Function.update_self, Function.update_idem, htwice, hlow, hhigh, ← mul_add]

theorem RReady.kiss_fftri (h : RReady lib n true st) {x : Nat → R} {freqdata : Nat → Cpx R}
    (hfreq : ∀ k ≤ n, freqdata k = spectrum lib n x k) (timedata : Nat → R) :
    ∃ tmpbuf, kiss_fftri st freqdata timedata = some ({ st with tmpbuf := tmpbuf },
      fun i => if i < 2 * n then (2 * n : Nat) * x i else timedata i) := by
  obtain ⟨heven, hodd⟩ := first_i lib x h.pos
  have hfirst : (⟨(freqdata 0).r + (freqdata n).r, (freqdata 0).r - (freqdata n).r⟩ : Cpx R) =
      2 * dft (turn lib false n) n (as_cpx x) 0 := by
    have hsplit := spectrum_split lib x h.pos 0 1
    rw [Nat.zero_add, Nat.one_mul] at hsplit
    rw [hfreq 0 (Nat.zero_le n), hfreq n (Nat.le_refl n), hsplit, spectrum_eq lib x h.pos,
      dft_pairs]
    ext
    · rw [Cpx.two_mul_r]
      simp [hodd]
      ring
    · rw [Cpx.two_mul_i]
      simp [heven]
      ring
  have hstart : update st.tmpbuf 0 (2 * dft (turn lib false n) n (as_cpx x) 0) =
      fun a => if a = 0 ∨ n ≤ a ∧ a < n then 2 * dft (turn lib false n) n (as_cpx x) a
        else st.tmpbuf a := by
    have hnone : st.tmpbuf = fun a => if n ≤ a ∧ a < n then
        2 * dft (turn lib false n) n (as_cpx x) a else st.tmpbuf a := by
      funext a
      rw [if_neg (by omega)]
    conv_lhs => rw [hnone]
    rw [Loop.update_agree]
    simp only [or_comm]
  have hloop := Loop.foldl_mirror (fun k => 2 * dft (turn lib false n) n (as_cpx x) k) st.tmpbuf
    (Nat.le_refl n) h.pos fun tmpbuf k hk => fftri_turn_eq h hfreq hk tmpbuf
  rw [KissFft.kiss_fftri, h.inverse, if_pos rfl, h.nfft]
  dsimp only
  rw [hfirst, hstart, hloop]
  refine ⟨_, congrArg some (Prod.ext rfl (funext fun i => ?_))⟩
  have hinverse : turn lib false n * turn lib true n = 1 := turn_mul_inverse lib false n
  generalize htable : (fun a => if a < n then 2 * dft (turn lib false n) n (as_cpx x) a
    else st.tmpbuf a) = tmpbuf
  have hout : ∀ k, kiss_fft st.substate tmpbuf (some tmpbuf) (as_cpx timedata) k =
      if k < n then 2 * (n * as_cpx x k) else as_cpx timedata k := by
    intro k
    rw [h.substate.kiss_fft, h.nfft, h.inverse, Option.getD_some]
    split
    · rename_i hk
      rw [← Dft.dft_dft (principal_turn lib false h.pos) hinverse _ hk, ← Dft.dft_mul_left]
      refine Dft.dft_congr ?_ k
      intro j hj
      rw [← htable]
      exact if_pos hj
    · rfl
  have htwice : ∀ c : Cpx R, (2 * (n * c)).r = (2 * n : Nat) * c.r ∧
      (2 * (n * c)).i = (2 * n : Nat) * c.i := by
    intro c
    rw [Cpx.two_mul_r, Cpx.two_mul_i, Cpx.mul_r, Cpx.mul_i, Cpx.natCast_r, Cpx.natCast_i,
      Nat.cast_mul, Nat.cast_two]
    exact ⟨by ring, by ring⟩
  have hplace : i % 2 = 0 ∧ 2 * (i / 2) = i ∨ ¬i % 2 = 0 ∧ 2 * (i / 2) + 1 = i := by omega
  have hin : i / 2 < n ↔ i < 2 * n := by omega
  have hscalar : ∀ out : Nat → Cpx R,
      as_scalar out i = if i % 2 = 0 then (out (i / 2)).r else (out (i / 2)).i := fun _ => rfl
  dsimp only
  rw [hscalar, hout]
  rcases hplace with ⟨hmod, hplace⟩ | ⟨hmod, hplace⟩
  · rw [if_pos hmod, apply_ite Cpx.r, (htwice _).1, as_cpx, as_cpx]
    simp only [hplace, hin]
  · rw [if_neg hmod, apply_ite Cpx.i, (htwice _).2, as_cpx, as_cpx]
    simp only [hplace, hin]

end Inverse

/-! ## Both -/

section Both

variable (lib : Libm R)

/-- **The transform of real numbers.** For every even length that can be allocated for: in exact
arithmetic the first half of their discrete Fourier transform, whatever was in the memory, and
nothing behind it changes. -/
theorem kiss_fftr_eq {n : Nat} (hn : 0 < n) (hint : n * 3 ≤ INT_MAX) (memory : RCfg R)
    (x : Nat → R) (freqdata : Nat → Cpx R) :
    ∃ st st', kiss_fftr_alloc lib (2 * n) false memory = some st ∧
      kiss_fftr st x freqdata = some (st', fun k =>
        if k ≤ n then
          ∑ j ∈ Finset.range (2 * n), Cpx.ofReal (x j) * turn lib false (2 * n) ^ (j * k)
        else freqdata k) := by
  obtain ⟨st, halloc, hready⟩ := RReady.alloc lib hn hint false memory
  obtain ⟨tmpbuf, hfftr⟩ := hready.kiss_fftr x freqdata
  exact ⟨st, _, halloc, hfftr⟩

theorem kiss_fftr_four :
    ∃ st st', kiss_fftr_alloc Libm.real (2 * 2) false default = some st ∧
      kiss_fftr st (fun _ => 1) (fun _ => 0) = some (st', fun k =>
        if k ≤ 2 then
          ∑ j ∈ Finset.range (2 * 2), Cpx.ofReal 1 * turn Libm.real false (2 * 2) ^ (j * k)
        else 0) :=
  kiss_fftr_eq Libm.real (by decide) (by decide) default (fun _ => 1) fun _ => 0

/-- **There and back.** For every even length that can be allocated for, the way back from the
spectrum of real numbers gives them `nfft` times, in exact arithmetic. -/
theorem kiss_fftri_kiss_fftr {n : Nat} (hn : 0 < n) (hint : n * 3 ≤ INT_MAX)
    (memory memory' : RCfg R) (x timedata : Nat → R) (freqdata : Nat → Cpx R) :
    ∃ st back st' back' freq, kiss_fftr_alloc lib (2 * n) false memory = some st ∧
      kiss_fftr_alloc lib (2 * n) true memory' = some back ∧
      kiss_fftr st x freqdata = some (st', freq) ∧
      kiss_fftri back freq timedata = some (back', fun i =>
        if i < 2 * n then (2 * n : Nat) * x i else timedata i) := by
  obtain ⟨st, halloc, hready⟩ := RReady.alloc lib hn hint false memory
  obtain ⟨back, halloc', hready'⟩ := RReady.alloc lib hn hint true memory'
  obtain ⟨tmpbuf, hfftr⟩ := hready.kiss_fftr x freqdata
  obtain ⟨tmpbuf', hfftri⟩ := hready'.kiss_fftri (fun k hk => if_pos hk) timedata
  exact ⟨st, back, _, _, _, halloc, halloc', hfftr, hfftri⟩

theorem kiss_fftri_kiss_fftr_four :
    ∃ st back st' back' freq, kiss_fftr_alloc Libm.real (2 * 2) false default = some st ∧
      kiss_fftr_alloc Libm.real (2 * 2) true default = some back ∧
      kiss_fftr st (fun _ => 1) (fun _ => 0) = some (st', freq) ∧
      kiss_fftri back freq (fun _ => 0) = some (back', fun i =>
        if i < 2 * 2 then ((2 * 2 : Nat) : ℝ) * 1 else 0) :=
  kiss_fftri_kiss_fftr Libm.real (by decide) (by decide) default default (fun _ => 1) (fun _ => 0)
    fun _ => 0

end Both

end KissFft
end SoundScreen
