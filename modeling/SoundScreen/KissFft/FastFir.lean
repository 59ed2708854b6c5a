import SoundScreen.KissFft.Real
import SoundScreen.Lib.Buffer
import SoundScreen.Lib.Fir

/-!
# SoundScreen.KissFft.FastFir

`tools/kiss_fastfir.c` for real samples: convolution with a kernel by transforms of overlapping
blocks, in exact arithmetic, of which the `float` that is `scale` is a part. A buffer is read and
written only inside its size; `none` stands for leaving it, for `exit(1)`, and for a number that an
`int` cannot hold.

* `fastconv1buf_eq`: of one block, `ngood` numbers are those of the linear convolution.
* `kff_nocopy_eq`: so are all numbers of as many blocks as fit.
* `kff_flush_eq`: a flush gives the rest of them, if the taps fit into what there is.
-/

namespace SoundScreen
namespace KissFft

open Function (update)

variable {R : Type*} [Field R]

/-- `kiss_fastfir_state`. -/
structure FirCfg (R : Type*) where
  nfft : Nat
  ngood : Nat
  fftcfg : RCfg R
  ifftcfg : RCfg R
  fir_freq_resp : Nat → Cpx R
  freqbuf : Nat → Cpx R
  n_freq_bins : Nat
  tmpbuf : Nat → R
deriving Inhabited

/-! ## The source -/

def MIN_FFT_LEN : Nat := 2048

/-- `do { nfft <<= 1 } while (i >>= 1)`, at most `fuel` turns of it. -/
def double_nfft : Nat → Nat → Nat → Nat
  | 0, _, nfft => nfft
  | fuel + 1, i, nfft =>
    let nfft := nfft * 2
    let i := i / 2
    if i = 0 then nfft else double_nfft fuel i nfft

/-- The size when none is asked for. -/
def choose_nfft (n_imp_resp : Nat) : Nat :=
  let nfft := double_nfft n_imp_resp (n_imp_resp - 1) 2
  if nfft < MIN_FFT_LEN then MIN_FFT_LEN else nfft

/-- `memory` is what was in the parts of the block that is allocated. A kernel that is empty or
longer than `nfft + 1` makes the places in `tmpbuf` wrap around. -/
def kiss_fastfir_alloc (lib : Libm R) (imp_resp : List R) (nfft : Nat) (memory : FirCfg R) :
    Option (FirCfg R) := do
  let n_imp_resp := imp_resp.length
  let nfft := if nfft = 0 then choose_nfft n_imp_resp else nfft
  if n_imp_resp = 0 ∨ nfft + 1 < n_imp_resp then
    none
  let n_freq_bins := nfft / 2 + 1
  let fftcfg ← kiss_fftr_alloc lib nfft false memory.fftcfg
  let ifftcfg ← kiss_fftr_alloc lib nfft true memory.ifftcfg
  let tmpbuf := fun i => if i < nfft then 0 else memory.tmpbuf i
  let tmpbuf := update tmpbuf 0 (imp_resp.getD (n_imp_resp - 1) 0)
  let tmpbuf := (List.range (n_imp_resp - 1)).foldl
    (fun tmpbuf i => update tmpbuf (nfft + 1 - n_imp_resp + i) (imp_resp.getD i 0)) tmpbuf
  let (fftcfg, fir_freq_resp) ← kiss_fftr fftcfg tmpbuf memory.fir_freq_resp
  let scale : R := 1 / nfft
  let fir_freq_resp := (List.range n_freq_bins).foldl
    (fun resp i => update resp i ⟨(resp i).r * scale, (resp i).i * scale⟩) fir_freq_resp
  return { memory with
    nfft := nfft
    ngood := nfft + 1 - n_imp_resp
    n_freq_bins := n_freq_bins
    fftcfg := fftcfg
    ifftcfg := ifftcfg
    tmpbuf := tmpbuf
    fir_freq_resp := fir_freq_resp }

/-- The state, and `out`. -/
def fastconv1buf (st : FirCfg R) (inp out : Nat → R) : Option (FirCfg R × (Nat → R)) := do
  let (fftcfg, freqbuf) ← kiss_fftr st.fftcfg inp st.freqbuf
  let freqbuf := (List.range st.n_freq_bins).foldl
    (fun freqbuf i => update freqbuf i (C_MUL (freqbuf i) (st.fir_freq_resp i))) freqbuf
  let (ifftcfg, out) ← kiss_fftri st.ifftcfg freqbuf out
  return ({ st with fftcfg := fftcfg, freqbuf := freqbuf, ifftcfg := ifftcfg }, out)

/-- `while (n >= nfft)`, at most `fuel` turns of it: the state, `outbuf`, and what `n` is then. Both
pointers are at `pos`. -/
def kff_loop : Nat → FirCfg R → Buffer R → Buffer R → Nat → Nat →
    Option (FirCfg R × Buffer R × Nat)
  | 0, st, _, outbuf, _, n => some (st, outbuf, n)
  | fuel + 1, st, inbuf, outbuf, pos, n =>
    if st.nfft ≤ n then do
      let inp ← inbuf.load pos st.nfft
      let out ← outbuf.load pos st.nfft
      let (st, out) ← fastconv1buf st inp out
      let outbuf ← outbuf.store pos st.nfft out
      kff_loop fuel st inbuf outbuf (pos + st.ngood) (n - st.ngood)
    else
      some (st, outbuf, n)

/-- The state, `outbuf`, and the number of samples that are done. -/
def kff_nocopy (st : FirCfg R) (inbuf outbuf : Buffer R) (n : Nat) :
    Option (FirCfg R × Buffer R × Nat) := do
  let norig := n
  let (st, outbuf, n) ← kff_loop n st inbuf outbuf 0 n
  return (st, outbuf, norig - n)

/-- When there are fewer good samples than zeros, the number that `memcpy` is given wraps around. -/
def kff_flush (st : FirCfg R) (inbuf outbuf : Buffer R) (n : Nat) :
    Option (FirCfg R × Buffer R × Nat) := do
  let (st, outbuf, ntmp) ← kff_nocopy st inbuf outbuf n
  let n := n - ntmp
  let zpad := st.nfft - n
  let inp ← inbuf.load ntmp n
  let tmpbuf := fun i => if i < n then inp i else if i < st.nfft then 0 else st.tmpbuf i
  let (st, tmpbuf) ← fastconv1buf st tmpbuf tmpbuf
  if st.ngood < zpad then
    none
  let outbuf ← outbuf.store ntmp (st.ngood - zpad) tmpbuf
  return ({ st with tmpbuf := tmpbuf }, outbuf, ntmp + (st.ngood - zpad))

/-- The state, `inbuf`, `outbuf`, the number of samples written, and `offset`. -/
def kiss_fastfir (vst : FirCfg R) (inbuf outbuf : Buffer R) (n_new offset : Nat) :
    Option (FirCfg R × Buffer R × Buffer R × Nat × Nat) := do
  let ntot := n_new + offset
  if n_new = 0 then
    let (vst, outbuf, nwritten) ← kff_flush vst inbuf outbuf ntot
    return (vst, inbuf, outbuf, nwritten, offset)
  else
    let (vst, outbuf, nwritten) ← kff_nocopy vst inbuf outbuf ntot
    let offset := ntot - nwritten
    let inbuf ← if 0 < nwritten then inbuf.move 0 nwritten offset else some inbuf
    return (vst, inbuf, outbuf, nwritten, offset)

/-! ## The state -/

/-- Samples as a sequence. -/
def sequence (xs : List R) (i : Nat) : R := xs.getD i 0

/-- What the filter gives for the samples of `x` from `t` on. -/
def filtered (imp_resp : List R) (x : Nat → R) (t : Nat) : R :=
  Fir.valid (sequence imp_resp) imp_resp.length x t

theorem filtered_shift {imp_resp : List R} {x y : Nat → R} {p n t : Nat}
    (h : ∀ a < n, y a = x (p + a)) (ht : t + imp_resp.length ≤ n) :
    filtered imp_resp y t = filtered imp_resp x (p + t) := by
  rw [filtered, filtered, ← Fir.valid_shift]
  exact Fir.valid_congr fun a _ ha => h a (by omega)

section State

variable {lib : Libm R} {imp_resp : List R} {m : Nat} {st : FirCfg R}

/-- A state as `kiss_fastfir_alloc` leaves it for the size `2 * m`. -/
structure FirReady (lib : Libm R) (imp_resp : List R) (m : Nat) (st : FirCfg R) : Prop where
  nonempty : 0 < imp_resp.length
  fits : imp_resp.length ≤ 2 * m
  nfft : st.nfft = 2 * m
  ngood : st.ngood = 2 * m + 1 - imp_resp.length
  n_freq_bins : st.n_freq_bins = m + 1
  fftcfg : RReady lib m false st.fftcfg
  ifftcfg : RReady lib m true st.ifftcfg
  fir_freq_resp : ∀ k ≤ m, st.fir_freq_resp k = Cpx.ofReal (1 / ((2 * m : Nat) : R)) *
    spectrum lib m (Fir.rotated (sequence imp_resp) imp_resp.length (2 * m)) k

/-- What `kiss_fastfir_alloc` puts into `tmpbuf`. -/
theorem rotated_tmpbuf (hpos : 0 < imp_resp.length) (hfits : imp_resp.length ≤ 2 * m)
    (tmpbuf : Nat → R) (hzero : ∀ i < 2 * m, tmpbuf i = 0) {a : Nat} (ha : a < 2 * m) :
    (List.range (imp_resp.length - 1)).foldl
        (fun tmpbuf i => update tmpbuf (2 * m + 1 - imp_resp.length + i) (imp_resp.getD i 0))
        (update tmpbuf 0 (imp_resp.getD (imp_resp.length - 1) 0)) a =
      Fir.rotated (sequence imp_resp) imp_resp.length (2 * m) a := by
  rw [Fir.rotated]
  by_cases hfirst : a = 0
  · rw [if_pos hfirst, Loop.foldl_update_of_ne _ _ _ (fun k _ => by omega), hfirst,
      Function.update_self, sequence]
  · rw [if_neg hfirst]
    by_cases hin : 2 * m - imp_resp.length + 1 ≤ a
    · have hplace : 2 * m + 1 - imp_resp.length + (a - (2 * m - imp_resp.length + 1)) = a := by
        omega
      have hwrite := Loop.foldl_update (fun i => 2 * m + 1 - imp_resp.length + i)
        (fun i => imp_resp.getD i 0) (update tmpbuf 0 (imp_resp.getD (imp_resp.length - 1) 0))
        (show a - (2 * m - imp_resp.length + 1) < imp_resp.length - 1 by omega)
        fun j _ hne => by omega
      simp only [hplace] at hwrite
      rw [if_pos hin, hwrite, sequence]
    · rw [if_neg hin, Loop.foldl_update_of_ne _ _ _ (fun k _ => by omega),
        Function.update_of_ne hfirst, hzero a ha]

theorem kiss_fastfir_alloc_nfft {lib : Libm R} {nfft : Nat} {memory : FirCfg R}
    (hne : nfft ≠ 0) (h : kiss_fastfir_alloc lib imp_resp nfft memory = some st) :
    st.nfft = nfft := by
  rw [kiss_fastfir_alloc] at h
  dsimp only at h
  rw [if_neg hne] at h
  split at h
  · cases h
  · obtain ⟨fftcfg, -, h⟩ := Option.bind_eq_some_iff.mp h
    obtain ⟨ifftcfg, -, h⟩ := Option.bind_eq_some_iff.mp h
    obtain ⟨⟨fftcfg', resp⟩, -, h⟩ := Option.bind_eq_some_iff.mp h
    cases h
    rfl

theorem FirReady.alloc (lib : Libm R) (hpos : 0 < imp_resp.length)
    (hfits : imp_resp.length ≤ 2 * m) (hint : m * 3 ≤ INT_MAX) (memory : FirCfg R) :
    ∃ st, kiss_fastfir_alloc lib imp_resp (2 * m) memory = some st ∧
      FirReady lib imp_resp m st := by
  have hm : 0 < m := by omega
  obtain ⟨fftcfg, hfft, hfftcfg⟩ := RReady.alloc lib hm hint false memory.fftcfg
  obtain ⟨ifftcfg, hifft, hifftcfg⟩ := RReady.alloc lib hm hint true memory.ifftcfg
  have hguard : ¬(imp_resp.length = 0 ∨ 2 * m + 1 < imp_resp.length) := by omega
  have hsize : ¬2 * m = 0 := by omega
  have hbins : 2 * m / 2 + 1 = m + 1 := by omega
  have hrotated := fun a (ha : a < 2 * m) => rotated_tmpbuf hpos hfits
    (fun i => if i < 2 * m then 0 else memory.tmpbuf i) (fun i hi => if_pos hi) ha
  rw [kiss_fastfir_alloc]
  simp only [if_neg hsize, if_neg hguard, hfft, hifft, Option.bind_eq_bind, Option.bind_some,
    Option.pure_def, hbins]
  generalize List.foldl _ (update (fun i => if i < 2 * m then 0 else memory.tmpbuf i) _ _) _ =
    tmpbuf at hrotated ⊢
  obtain ⟨buf, hfftr⟩ := hfftcfg.kiss_fftr tmpbuf memory.fir_freq_resp
  rw [hfftr, Option.bind_some]
  refine ⟨_, rfl, hpos, hfits, rfl, rfl, rfl, hfftcfg.tmpbuf buf, hifftcfg, ?_⟩
  intro k hk
  have hspectrum : spectrum lib m tmpbuf k =
      spectrum lib m (Fir.rotated (sequence imp_resp) imp_resp.length (2 * m)) k := by
    refine Dft.dft_congr ?_ k
    intro j hj
    rw [hrotated j hj]
  have hscale := congrFun (Loop.foldl_modify
    (fun (_ : Nat) (c : Cpx R) => ⟨c.r * (1 / (2 * m : Nat)), c.i * (1 / (2 * m : Nat))⟩)
    (fun k => if k ≤ m then spectrum lib m tmpbuf k else memory.fir_freq_resp k) (m + 1)) k
  refine hscale.trans ?_
  rw [if_pos (Nat.lt_succ_of_le hk), if_pos hk, hspectrum, mul_comm (Cpx.ofReal _)]
  ext <;> simp

/-! ## One block -/

theorem ofReal_circular (n : Nat) (x y : Nat → R) (k : Nat) :
    Cpx.ofReal (Dft.circular n x y k) =
      Dft.circular n (fun j => Cpx.ofReal (x j)) (fun j => Cpx.ofReal (y j)) k := by
  have hsum := map_sum (Cpx.ofRealHom (R := R))
    (fun j => x j * y ((k + (n - j)) % n)) (Finset.range n)
  refine hsum.trans (Finset.sum_congr rfl fun j _ => ?_)
  exact Cpx.ofReal_mul _ _

/-- The product of two spectra is the spectrum of the circular convolution. -/
theorem spectrum_mul (lib : Libm R) (hm : 0 < m) (x y : Nat → R) (k : Nat) :
    spectrum lib m x k * spectrum lib m y k =
      spectrum lib m (Dft.circular (2 * m) x y) k := by
  have hone := (principal_turn lib false (n := 2 * m) (by omega)).pow_eq_one
  rw [spectrum, spectrum, ← Dft.dft_circular hone, spectrum]
  refine Dft.dft_congr ?_ k
  intro j _
  rw [ofReal_circular]

theorem spectrum_scale (lib : Libm R) (c : R) (x : Nat → R) (k : Nat) :
    Cpx.ofReal c * spectrum lib m x k = spectrum lib m (fun a => c * x a) k := by
  rw [spectrum, ← Dft.dft_mul_left, spectrum]
  refine Dft.dft_congr ?_ k
  intro j _
  rw [Cpx.ofReal_mul]

theorem fastconv1buf_eq (h : FirReady lib imp_resp m st) (inp out : Nat → R) :
    ∃ st' out', fastconv1buf st inp out = some (st', out') ∧ FirReady lib imp_resp m st' ∧
      ∀ t < st.ngood, out' t = filtered imp_resp inp t := by
  have hm := h.fftcfg.pos
  have hsize : ((2 * m : Nat) : R) ≠ 0 := lib.natCast_ne_zero _ (by omega)
  obtain ⟨buf, hfftr⟩ := h.fftcfg.kiss_fftr inp st.freqbuf
  rw [fastconv1buf, hfftr, Option.bind_eq_bind, Option.bind_some]
  dsimp only
  generalize hproduct : List.foldl _ _ _ = freqbuf
  have hfreq : ∀ k ≤ m, freqbuf k = spectrum lib m (fun a => 1 / ((2 * m : Nat) : R) *
      Dft.circular (2 * m) inp (Fir.rotated (sequence imp_resp) imp_resp.length (2 * m)) a) k := by
    intro k hk
    have hloop := congrFun (Loop.foldl_modify (fun i c => C_MUL c (st.fir_freq_resp i))
      (fun k => if k ≤ m then spectrum lib m inp k else st.freqbuf k) st.n_freq_bins) k
    rw [← hproduct, h.n_freq_bins]
    rw [h.n_freq_bins] at hloop
    refine hloop.trans ?_
    rw [if_pos (Nat.lt_succ_of_le hk), if_pos hk, C_MUL_eq, h.fir_freq_resp k hk, mul_left_comm,
      spectrum_mul lib hm, spectrum_scale]
  obtain ⟨buf', hfftri⟩ := h.ifftcfg.kiss_fftri hfreq out
  rw [hfftri, Option.bind_eq_bind, Option.bind_some]
  refine ⟨_, _, rfl, ⟨h.nonempty, h.fits, h.nfft, h.ngood, h.n_freq_bins, h.fftcfg.tmpbuf buf,
    h.ifftcfg.tmpbuf buf', h.fir_freq_resp⟩, ?_⟩
  intro t ht
  rw [h.ngood] at ht
  have hfits := h.fits
  have hgood := Fir.circular_rotated (sequence imp_resp) h.nonempty inp
    (show t + imp_resp.length ≤ 2 * m by omega)
  have hpos := h.nonempty
  dsimp only
  rw [if_pos (by omega), hgood, ← mul_assoc, mul_one_div_cancel hsize, one_mul, filtered]

/-! ## As many blocks as fit -/

theorem kff_loop_eq (h : FirReady lib imp_resp m st) (inbuf : Buffer R) {fuel pos n : Nat}
    (outbuf : Buffer R) (hfuel : n ≤ fuel) (hin : pos + n ≤ inbuf.size)
    (hout : pos + n ≤ outbuf.size) :
    ∃ st' outbuf' done left, kff_loop fuel st inbuf outbuf pos n = some (st', outbuf', left) ∧
      FirReady lib imp_resp m st' ∧ done + left = n ∧ left < 2 * m ∧
      (2 * m ≤ n → imp_resp.length ≤ left + 1) ∧ (n < 2 * m → done = 0) ∧
      outbuf'.size = outbuf.size ∧
      (∀ t < pos, outbuf'.cell t = outbuf.cell t) ∧
      ∀ t, pos ≤ t → t < pos + done → outbuf'.cell t = filtered imp_resp inbuf.cell t := by
  have hfits := h.fits
  have hpos := h.nonempty
  induction fuel generalizing st pos n outbuf with
  | zero =>
    obtain rfl : n = 0 := by omega
    exact ⟨st, outbuf, 0, 0, rfl, h, rfl, by omega, by omega, fun _ => rfl, rfl, fun _ _ => rfl,
      fun t _ _ => by omega⟩
  | succ fuel ih =>
    rw [kff_loop, h.nfft]
    split
    · rename_i hfull
      obtain ⟨st', out', hconv, h', hgood⟩ := fastconv1buf_eq h (fun i => inbuf.cell (pos + i))
        fun i => outbuf.cell (pos + i)
      have hngood := h.ngood
      have hfits := h.fits
      obtain ⟨st'', outbuf', done, left, hloop, h'', hsum, hleft, htaps, hshort, hsize, hbefore,
        hafter⟩ := ih h' (outbuf.write pos (2 * m) out')
          (show n - st'.ngood ≤ fuel by rw [h'.ngood]; omega)
          (show pos + st'.ngood + (n - st'.ngood) ≤ inbuf.size by rw [h'.ngood]; omega)
          (by rw [h'.ngood, Buffer.write_size]; omega)
      rw [Buffer.load_ok (show pos + 2 * m ≤ inbuf.size by omega),
        Buffer.load_ok (show pos + 2 * m ≤ outbuf.size by omega)]
      simp only [Option.bind_eq_bind, Option.bind_some, hconv, h'.nfft]
      rw [Buffer.store_ok _ (show pos + 2 * m ≤ outbuf.size by omega), Option.bind_some]
      rw [h'.ngood] at hsum htaps hshort hbefore hafter
      refine ⟨st'', outbuf', 2 * m + 1 - imp_resp.length + done, left, hloop, h'', by omega, hleft,
        ?_, by omega, hsize, ?_, ?_⟩
      · intro _
        by_cases hagain : 2 * m ≤ n - (2 * m + 1 - imp_resp.length)
        · exact htaps hagain
        · have hdone := hshort (by omega)
          omega
      · intro t ht
        rw [hbefore t (by omega), Buffer.write_out _ _ (.inl ht)]
      · intro t hle hlt
        by_cases hblock : t < pos + (2 * m + 1 - imp_resp.length)
        · rw [hbefore t hblock, Buffer.write_in _ _ hle (by omega), hgood _ (by omega), filtered,
            Fir.valid_shift, Nat.add_sub_cancel' hle, filtered]
        · exact hafter t (by omega) (by omega)
    · rename_i hshort
      exact ⟨st, outbuf, 0, n, rfl, h, Nat.zero_add n, by omega, by omega, fun _ => rfl, rfl,
        fun _ _ => rfl, fun t _ _ => by omega⟩

theorem kff_nocopy_eq (h : FirReady lib imp_resp m st) {inbuf outbuf : Buffer R} {n : Nat}
    (hin : n ≤ inbuf.size) (hout : n ≤ outbuf.size) :
    ∃ st' outbuf' done, kff_nocopy st inbuf outbuf n = some (st', outbuf', done) ∧
      FirReady lib imp_resp m st' ∧ done ≤ n ∧ n - done < 2 * m ∧
      (2 * m ≤ n → imp_resp.length ≤ n - done + 1) ∧ (n < 2 * m → done = 0) ∧
      outbuf'.size = outbuf.size ∧
      ∀ t < done, outbuf'.cell t = filtered imp_resp inbuf.cell t := by
  obtain ⟨st', outbuf', done, left, hloop, h', hsum, hleft, htaps, hshort, hsize, -, hafter⟩ :=
    kff_loop_eq h inbuf outbuf (Nat.le_refl n) (by omega : 0 + n ≤ inbuf.size) (by omega)
  refine ⟨st', outbuf', done, ?_, h', by omega, by omega, fun hn => ?_, hshort, hsize, ?_⟩
  · rw [kff_nocopy, hloop, show done = n - left by omega]
    rfl
  · have htaps := htaps hn
    omega
  · exact fun t ht => hafter t (Nat.zero_le t) (by omega)

/-! ## What is left -/

theorem kff_flush_eq (h : FirReady lib imp_resp m st) {inbuf outbuf : Buffer R} {n : Nat}
    (hin : n ≤ inbuf.size) (hout : n ≤ outbuf.size) :
    if imp_resp.length ≤ n + 1 then
      ∃ st' outbuf', kff_flush st inbuf outbuf n = some (st', outbuf', n + 1 - imp_resp.length) ∧
        FirReady lib imp_resp m st' ∧ outbuf'.size = outbuf.size ∧
        ∀ t < n + 1 - imp_resp.length, outbuf'.cell t = filtered imp_resp inbuf.cell t
    else kff_flush st inbuf outbuf n = none := by
  obtain ⟨st', outbuf', done, hnocopy, h', hdone, hleft, htaps, hshort, hsize, hcells⟩ :=
    kff_nocopy_eq h hin hout
  have hpos := h.nonempty
  have hfits := h.fits
  obtain ⟨st'', tmpbuf, hconv, h'', hgood⟩ := fastconv1buf_eq h'
    (fun i => if i < n - done then inbuf.cell (done + i)
      else if i < 2 * m then 0 else st'.tmpbuf i)
    (fun i => if i < n - done then inbuf.cell (done + i)
      else if i < 2 * m then 0 else st'.tmpbuf i)
  have hload := Buffer.load_ok (show done + (n - done) ≤ inbuf.size by omega)
  rw [kff_flush, hnocopy]
  simp only [Option.bind_eq_bind, Option.bind_some, hload, h'.nfft, hconv, h''.ngood]
  have hngood := h'.ngood
  split
  · rename_i hlong
    have hnone : ¬2 * m + 1 - imp_resp.length < 2 * m - (n - done) := by omega
    have hcount : 2 * m + 1 - imp_resp.length - (2 * m - (n - done)) =
        n - done + 1 - imp_resp.length := by
      omega
    have hrest : done + (n - done + 1 - imp_resp.length) = n + 1 - imp_resp.length := by omega
    rw [if_neg hnone, hcount, Buffer.store_ok _ (by omega), ← hrest]
    refine ⟨{ st'' with ngood := 2 * m + 1 - imp_resp.length, tmpbuf := tmpbuf },
      outbuf'.write done (n - done + 1 - imp_resp.length) tmpbuf, rfl,
      ⟨h''.nonempty, h''.fits, h''.nfft, rfl, h''.n_freq_bins, h''.fftcfg, h''.ifftcfg,
        h''.fir_freq_resp⟩, hsize, ?_⟩
    intro t ht
    by_cases hin : t < done
    · rw [Buffer.write_out _ _ (.inl hin)]
      exact hcells t hin
    · rw [Buffer.write_in _ _ (by omega) (by omega), hgood _ (by omega), filtered, filtered]
      have hsame : Fir.valid (sequence imp_resp) imp_resp.length (fun i => inbuf.cell (done + i))
          (t - done) = Fir.valid (sequence imp_resp) imp_resp.length inbuf.cell t := by
        rw [Fir.valid_shift, Nat.add_sub_cancel' (by omega)]
      rw [← hsame]
      refine Fir.valid_congr ?_
      intro a _ ha
      rw [if_pos (by omega)]
  · rename_i hlong
    have hfar : 2 * m + 1 - imp_resp.length < 2 * m - (n - done) := by omega
    rw [if_pos hfar]
    rfl

/-- What a call with new samples leaves: the samples that are done are filtered, and the others are
at the front of `inbuf`. -/
theorem kiss_fastfir_eq (h : FirReady lib imp_resp m st) {inbuf outbuf : Buffer R}
    {n_new offset : Nat} (hnew : 0 < n_new) (hin : n_new + offset ≤ inbuf.size)
    (hout : n_new + offset ≤ outbuf.size) :
    ∃ st' inbuf' outbuf' done left,
      kiss_fastfir st inbuf outbuf n_new offset = some (st', inbuf', outbuf', done, left) ∧
      FirReady lib imp_resp m st' ∧ done + left = n_new + offset ∧ left < 2 * m ∧
      (0 < done → imp_resp.length ≤ left + 1) ∧
      inbuf'.size = inbuf.size ∧ outbuf'.size = outbuf.size ∧
      (∀ t < done, outbuf'.cell t = filtered imp_resp inbuf.cell t) ∧
      ∀ a < left, inbuf'.cell a = inbuf.cell (done + a) := by
  obtain ⟨st', outbuf', done, hnocopy, h', hdone, hleft, htaps, hshort, hsize, hcells⟩ :=
    kff_nocopy_eq h hin hout
  have hfew : 0 < done → imp_resp.length ≤ n_new + offset - done + 1 := by
    intro hpos
    refine htaps ?_
    by_contra hlt
    have hzero := hshort (by omega)
    omega
  rw [kiss_fastfir, if_neg (by omega), hnocopy]
  simp only [Option.bind_eq_bind, Option.bind_some]
  by_cases hpos : 0 < done
  · rw [if_pos hpos, Buffer.move_ok (by omega) (by omega), Option.bind_some]
    refine ⟨st', _, outbuf', done, _, rfl, h', by omega, hleft, hfew, rfl, hsize, hcells, ?_⟩
    intro a ha
    rw [Buffer.write_in _ _ (Nat.zero_le a) (by omega), Nat.sub_zero]
  · rw [if_neg hpos]
    refine ⟨st', _, outbuf', done, _, rfl, h', by omega, hleft, hfew, rfl, hsize, hcells, ?_⟩
    intro a _
    rw [show done + a = a by omega]

end State

/-! ## The buffers keep their sizes -/

theorem kff_loop_size {fuel pos n left : Nat} {st st' : FirCfg R}
    {inbuf outbuf outbuf' : Buffer R}
    (h : kff_loop fuel st inbuf outbuf pos n = some (st', outbuf', left)) :
    outbuf'.size = outbuf.size := by
  induction fuel generalizing st outbuf pos n with
  | zero =>
    cases h
    rfl
  | succ fuel ih =>
    rw [kff_loop] at h
    split at h
    · obtain ⟨inp, -, h⟩ := Option.bind_eq_some_iff.mp h
      obtain ⟨out, -, h⟩ := Option.bind_eq_some_iff.mp h
      obtain ⟨⟨st'', out'⟩, -, h⟩ := Option.bind_eq_some_iff.mp h
      obtain ⟨outbuf'', hstore, h⟩ := Option.bind_eq_some_iff.mp h
      exact (ih h).trans (Buffer.store_size hstore)
    · cases h
      rfl

theorem kff_nocopy_size {st st' : FirCfg R} {inbuf outbuf outbuf' : Buffer R} {n done : Nat}
    (h : kff_nocopy st inbuf outbuf n = some (st', outbuf', done)) :
    outbuf'.size = outbuf.size := by
  obtain ⟨⟨st'', outbuf'', left⟩, hloop, h⟩ := Option.bind_eq_some_iff.mp h
  cases h
  exact kff_loop_size hloop

theorem kff_flush_size {st st' : FirCfg R} {inbuf outbuf outbuf' : Buffer R} {n done : Nat}
    (h : kff_flush st inbuf outbuf n = some (st', outbuf', done)) :
    outbuf'.size = outbuf.size := by
  obtain ⟨⟨st1, outbuf1, ntmp⟩, hnocopy, h⟩ := Option.bind_eq_some_iff.mp h
  obtain ⟨inp, -, h⟩ := Option.bind_eq_some_iff.mp h
  obtain ⟨⟨st2, tmpbuf⟩, -, h⟩ := Option.bind_eq_some_iff.mp h
  dsimp only at h
  split at h
  · cases h
  · obtain ⟨outbuf2, hstore, h⟩ := Option.bind_eq_some_iff.mp h
    cases h
    exact (Buffer.store_size hstore).trans (kff_nocopy_size hnocopy)

theorem kiss_fastfir_size {vst vst' : FirCfg R} {inbuf inbuf' outbuf outbuf' : Buffer R}
    {n_new offset done left : Nat}
    (h : kiss_fastfir vst inbuf outbuf n_new offset = some (vst', inbuf', outbuf', done, left)) :
    inbuf'.size = inbuf.size ∧ outbuf'.size = outbuf.size := by
  rw [kiss_fastfir] at h
  dsimp only at h
  split at h
  · obtain ⟨⟨vst'', outbuf'', done'⟩, hflush, h⟩ := Option.bind_eq_some_iff.mp h
    cases h
    exact ⟨rfl, kff_flush_size hflush⟩
  · obtain ⟨⟨vst'', outbuf'', done'⟩, hnocopy, h⟩ := Option.bind_eq_some_iff.mp h
    dsimp only at h
    split at h
    · obtain ⟨inbuf'', hmove, h⟩ := Option.bind_eq_some_iff.mp h
      cases h
      exact ⟨Buffer.memcpy_size hmove, kff_nocopy_size hnocopy⟩
    · cases h
      exact ⟨rfl, kff_nocopy_size hnocopy⟩

/-! ## The size -/

theorem double_nfft_spec {fuel i : Nat} (hfuel : i < fuel) (nfft : Nat) :
    (∃ k, double_nfft fuel i nfft = nfft * 2 ^ k) ∧ nfft * (i + 1) ≤ double_nfft fuel i nfft := by
  induction fuel generalizing i nfft with
  | zero => omega
  | succ fuel ih =>
    rw [double_nfft]
    split
    · refine ⟨⟨1, by rw [pow_one]⟩, Nat.mul_le_mul_left nfft ?_⟩
      omega
    · obtain ⟨⟨k, hk⟩, hle⟩ := ih (show i / 2 < fuel by omega) (nfft * 2)
      refine ⟨⟨k + 1, by rw [hk, pow_succ]; ring⟩, Nat.le_trans ?_ hle⟩
      rw [Nat.mul_assoc]
      exact Nat.mul_le_mul_left nfft (by omega)

/-- The size that is chosen is a power of two, and at least twice the length of the kernel. -/
theorem choose_nfft_spec {n_imp_resp : Nat} (h : 0 < n_imp_resp) :
    (∃ k, choose_nfft n_imp_resp = 2 ^ (k + 1)) ∧ 2 * n_imp_resp ≤ choose_nfft n_imp_resp := by
  obtain ⟨⟨k, hk⟩, hle⟩ := double_nfft_spec (show n_imp_resp - 1 < n_imp_resp by omega) 2
  rw [Nat.sub_add_cancel h] at hle
  rw [choose_nfft]
  split
  · rename_i hlt
    exact ⟨⟨10, rfl⟩, by omega⟩
  · exact ⟨⟨k, by rw [hk, pow_succ, Nat.mul_comm]⟩, hle⟩

/-- The size that `kiss_fastfir_alloc` uses. -/
def used_nfft (n_imp_resp nfft : Nat) : Nat := if nfft = 0 then choose_nfft n_imp_resp else nfft

/-- The sizes with which the kernel can be used: one that is chosen, or an even one that it fits
into, for which the memory can be allocated. -/
def Usable (imp_resp : List R) (nfft : Nat) : Prop :=
  (nfft = 0 ∨ nfft % 2 = 0 ∧ imp_resp.length ≤ nfft) ∧
    used_nfft imp_resp.length nfft / 2 * 3 ≤ INT_MAX

omit [Field R] in
theorem used_nfft_spec {imp_resp : List R} {nfft : Nat} (h : Usable imp_resp nfft)
    (hpos : 0 < imp_resp.length) :
    used_nfft imp_resp.length nfft % 2 = 0 ∧ imp_resp.length ≤ used_nfft imp_resp.length nfft := by
  rw [used_nfft]
  split
  · obtain ⟨⟨k, hk⟩, hle⟩ := choose_nfft_spec hpos
    rw [hk] at hle ⊢
    exact ⟨by rw [pow_succ, Nat.mul_mod_left], by omega⟩
  · rename_i hne
    exact h.1.resolve_left hne

theorem Usable.alloc (lib : Libm R) {imp_resp : List R} {nfft : Nat} (h : Usable imp_resp nfft)
    (hpos : 0 < imp_resp.length) (memory : FirCfg R) :
    ∃ m st, kiss_fastfir_alloc lib imp_resp nfft memory = some st ∧
      FirReady lib imp_resp m st ∧ 2 * m = used_nfft imp_resp.length nfft ∧ m * 3 ≤ INT_MAX := by
  obtain ⟨heven, hfits⟩ := used_nfft_spec h hpos
  have hint := h.2
  have hsame : kiss_fastfir_alloc lib imp_resp nfft memory =
      kiss_fastfir_alloc lib imp_resp (used_nfft imp_resp.length nfft) memory := by
    have hne : used_nfft imp_resp.length nfft ≠ 0 := by omega
    conv_rhs => rw [kiss_fastfir_alloc, if_neg hne]
    rfl
  generalize used_nfft imp_resp.length nfft = used at hsame heven hfits hint
  have htwice : 2 * (used / 2) = used := by omega
  obtain ⟨st, halloc, hready⟩ := FirReady.alloc lib hpos (m := used / 2) (by omega) hint memory
  rw [htwice] at halloc
  exact ⟨used / 2, st, hsame.trans halloc, hready, htwice, hint⟩

end KissFft
end SoundScreen
