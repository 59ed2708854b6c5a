import SoundScreen.KissFft.FastFir
import SoundScreen.Lib.RingBuffer

/-!
# SoundScreen.KissFft.FileFilter

The two ways in which the program in `tools/kiss_fastfir.c` filters a file: sample by sample with a
ring of the last samples, and by transforms, both in exact arithmetic. A file is the list of its
samples; whether the call `k` of `fwrite` or `write` takes all it is given is `takes k`.

* `direct_file_filter_eq`, `do_file_filter_eq`: each gives the convolution, where all taps are in
  the file, or fails when the file has fewer samples than there are taps but one.
* `file_filters_agree`: so they give the same.
-/

namespace SoundScreen
namespace KissFft

open Function (update)
open RingBuffer (Holds)

variable {R : Type*} [Field R]

/-! ## The source -/

/-- A turn of the loops over `tap`: `outval`, and where in `imp_resp` the pointer `tmph` is. -/
def tap_turn (imp_resp : List R) (circbuf : Nat → R) : R × Nat → Nat → R × Nat
  | (outval, tmph), tap => (outval + circbuf tap * imp_resp.getD tmph 0, tmph - 1)

/-- `outval` for one sample. -/
def direct_sample (imp_resp : List R) (nlag : Nat) (circbuf : Nat → R) (oldestlag : Nat)
    (sample : R) : R :=
  let s := (0, nlag)
  let s := (List.range' oldestlag (nlag - oldestlag)).foldl (tap_turn imp_resp circbuf) s
  let s := (List.range oldestlag).foldl (tap_turn imp_resp circbuf) s
  s.1 + sample * imp_resp.getD s.2 0

/-- The loop over `k`: `buf` as it is written, `circbuf` and `oldestlag`. -/
def direct_block (imp_resp : List R) (nlag : Nat) :
    List R → (Nat → R) → Nat → List R × (Nat → R) × Nat
  | [], circbuf, oldestlag => ([], circbuf, oldestlag)
  | sample :: buf, circbuf, oldestlag =>
    let outval := direct_sample imp_resp nlag circbuf oldestlag sample
    let circbuf := update circbuf oldestlag sample
    let oldestlag := oldestlag + 1
    let oldestlag := if oldestlag = nlag then 0 else oldestlag
    let (buf, circbuf, oldestlag) := direct_block imp_resp nlag buf circbuf oldestlag
    (outval :: buf, circbuf, oldestlag)

def nbuf : Nat := 4096

/-- `do { ... } while (nread)`, at most `fuel` turns of it: what is written; `none` is `exit(1)`. -/
def direct_loop (takes : Nat → Bool) (imp_resp : List R) (nlag : Nat) :
    Nat → Nat → List R → (Nat → R) → Nat → Option (List R)
  | 0, _, _, _, _ => none
  | fuel + 1, call, fin, circbuf, oldestlag =>
    let buf := fin.take nbuf
    if buf.length = 0 then
      some []
    else
      let (buf, circbuf, oldestlag) := direct_block imp_resp nlag buf circbuf oldestlag
      if takes call then do
        let rest ← direct_loop takes imp_resp nlag fuel (call + 1) (fin.drop nbuf) circbuf oldestlag
        return buf ++ rest
      else none

/-- What is written to `fout`; `none` is `exit(1)`, and `memory` what was in `circbuf`. -/
def direct_file_filter (takes : Nat → Bool) (fin imp_resp : List R) (memory : Nat → R) :
    Option (List R) :=
  let nlag := imp_resp.length - 1
  let circbuf := fun i => (fin.take nlag).getD i (memory i)
  if (fin.take nlag).length ≠ nlag then
    none
  else
    direct_loop takes imp_resp nlag (fin.length + 1) 0 (fin.drop nlag) circbuf 0

/-- A `kffsamp_t` is a `float`. -/
def sizeof_kffsamp_t : Nat := 4

/-- `do { ... } while (nread)`, at most `fuel` turns of it: what is written. `nread` and `nwrite`
are an `int` each. -/
def file_loop (takes : Nat → Bool) :
    Nat → Nat → FirCfg R → Buffer R → Buffer R → Nat → List R → Option (List R)
  | 0, _, _, _, _, _, _ => none
  | fuel + 1, call, cfg, inbuf, outbuf, idx_inbuf, fin => do
    let nread := min (inbuf.size - idx_inbuf) fin.length
    let inbuf ← inbuf.store idx_inbuf nread fun i => fin.getD i 0
    let (cfg, inbuf, outbuf, ndone, idx_inbuf) ← kiss_fastfir cfg inbuf outbuf nread idx_inbuf
    let nwrite := ndone * sizeof_kffsamp_t
    if INT_MAX < nread ∨ INT_MAX < nwrite then
      none
    let out ← outbuf.load 0 ndone
    let written := (List.range ndone).map out
    if takes call = false then
      none
    if nread = 0 then
      return written
    else
      let rest ← file_loop takes fuel (call + 1) cfg inbuf outbuf idx_inbuf (fin.drop nread)
      return written ++ rest

/-- The size of both buffers, in samples. -/
def n_samps_buf (nfft n_imp_resp : Nat) : Nat := nfft + 4 * (nfft - n_imp_resp + 1)

/-- What is written to `fout`; `memory`, `old_in` and `old_out` are what was in the memory that is
allocated. -/
def do_file_filter (lib : Libm R) (takes : Nat → Bool) (fin imp_resp : List R) (nfft : Nat)
    (memory : FirCfg R) (old_in old_out : Nat → R) : Option (List R) := do
  let cfg ← kiss_fastfir_alloc lib imp_resp nfft memory
  let size := n_samps_buf cfg.nfft imp_resp.length
  file_loop takes (fin.length + 1) 0 cfg ⟨size, old_in⟩ ⟨size, old_out⟩ 0 fin

/-! ## Sample by sample -/

section Direct

variable {imp_resp : List R} {nlag : Nat}

theorem tap_turns (imp_resp : List R) (nlag : Nat) (circbuf : Nat → R) (place : Nat → Nat)
    (k : Nat) :
    ((List.range k).map place).foldl (tap_turn imp_resp circbuf) (0, nlag) =
      (∑ j ∈ Finset.range k, circbuf (place j) * sequence imp_resp (nlag - j), nlag - k) := by
  induction k with
  | zero => rfl
  | succ k ih =>
    rw [List.range_succ, List.map_append, List.foldl_append, ih, List.map_singleton,
      List.foldl_cons, List.foldl_nil, tap_turn, Finset.sum_range_succ, sequence]
    rfl

/-- The sum over the taps, from the sample that has been in the ring longest. -/
theorem direct_sample_eq {x : Nat → R} {t : Nat} {circbuf : Nat → R} {oldestlag : Nat}
    (h : Holds nlag x t circbuf oldestlag) (hlength : imp_resp.length = nlag + 1) :
    direct_sample imp_resp nlag circbuf oldestlag (x (t + nlag)) = filtered imp_resp x t := by
  have hturns := tap_turns imp_resp nlag circbuf (fun j => (oldestlag + j) % nlag) nlag
  rw [← RingBuffer.places h.lt, List.foldl_append] at hturns
  have hsample : direct_sample imp_resp nlag circbuf oldestlag (x (t + nlag)) =
      (∑ j ∈ Finset.range nlag, circbuf ((oldestlag + j) % nlag) * sequence imp_resp (nlag - j)) +
        x (t + nlag) * sequence imp_resp 0 := by
    simp only [direct_sample, hturns, Nat.sub_self, sequence]
  rw [hsample, filtered, Fir.valid_flip, hlength, Finset.sum_range_succ]
  congr 1
  · refine Finset.sum_congr rfl ?_
    intro j hj
    rw [h.cell j (Finset.mem_range.mp hj), mul_comm, show nlag + 1 - 1 - j = nlag - j by omega]
  · rw [mul_comm, show nlag + 1 - 1 - nlag = 0 by omega]

theorem direct_block_eq (hlength : imp_resp.length = nlag + 1) {x : Nat → R} {buf : List R}
    {t : Nat} {circbuf : Nat → R} {oldestlag : Nat} (h : Holds nlag x t circbuf oldestlag)
    (hbuf : ∀ k < buf.length, buf.getD k 0 = x (t + nlag + k)) :
    ∃ circbuf' oldestlag', direct_block imp_resp nlag buf circbuf oldestlag =
        ((List.range buf.length).map fun k => filtered imp_resp x (t + k), circbuf', oldestlag') ∧
      Holds nlag x (t + buf.length) circbuf' oldestlag' := by
  induction buf generalizing t circbuf oldestlag with
  | nil => exact ⟨circbuf, oldestlag, rfl, h⟩
  | cons sample buf ih =>
    have hsample : sample = x (t + nlag) := hbuf 0 (Nat.succ_pos _)
    have hrest : ∀ k < buf.length, buf.getD k 0 = x (t + 1 + nlag + k) := by
      intro k hk
      rw [show t + 1 + nlag + k = t + nlag + (k + 1) by omega]
      exact hbuf (k + 1) (Nat.succ_lt_succ hk)
    obtain ⟨circbuf', oldestlag', hblock, hholds⟩ := ih h.write hrest
    rw [RingBuffer.next] at hblock
    refine ⟨circbuf', oldestlag', ?_, ?_⟩
    · rw [direct_block, hsample, hblock, direct_sample_eq h hlength, List.length_cons,
        List.range_succ_eq_map, List.map_cons, List.map_map]
      refine congrArg (fun l => (_ :: l, circbuf', oldestlag')) (List.map_congr_left ?_)
      intro k _
      rw [Function.comp_apply, show t + 1 + k = t + (k + 1) by omega]
    · rwa [List.length_cons, show t + (buf.length + 1) = t + 1 + buf.length by omega]

/-- `fin` is what is left of the samples from `t + nlag` on. -/
theorem direct_loop_eq {takes : Nat → Bool} (htakes : ∀ k, takes k = true) (call : Nat)
    (hlength : imp_resp.length = nlag + 1) {x : Nat → R} {fuel : Nat} {fin : List R} {t : Nat}
    {circbuf : Nat → R} {oldestlag : Nat} (hfuel : fin.length < fuel)
    (h : Holds nlag x t circbuf oldestlag)
    (hfin : ∀ k < fin.length, fin.getD k 0 = x (t + nlag + k)) :
    direct_loop takes imp_resp nlag fuel call fin circbuf oldestlag =
      some ((List.range fin.length).map fun k => filtered imp_resp x (t + k)) := by
  induction fuel generalizing call fin t circbuf oldestlag with
  | zero => omega
  | succ fuel ih =>
    have hnbuf : 0 < nbuf := by decide
    rw [direct_loop]
    have htake : (fin.take nbuf).length = min nbuf fin.length := List.length_take
    split
    · rename_i hnone
      have hempty : fin.length = 0 := by omega
      rw [hempty]
      rfl
    · rename_i hsome
      have hbuf : ∀ k < (fin.take nbuf).length, (fin.take nbuf).getD k 0 = x (t + nlag + k) := by
        intro k hk
        rw [← hfin k (by omega), List.getD_eq_getElem?_getD, List.getElem?_take_of_lt (by omega),
          List.getD_eq_getElem?_getD]
      obtain ⟨circbuf', oldestlag', hblock, hholds⟩ := direct_block_eq hlength h hbuf
      have hdrop : (fin.drop nbuf).length = fin.length - nbuf := List.length_drop
      have hrest : ∀ k < (fin.drop nbuf).length,
          (fin.drop nbuf).getD k 0 = x (t + (fin.take nbuf).length + nlag + k) := by
        intro k hk
        rw [List.getD_eq_getElem?_getD, List.getElem?_drop, ← List.getD_eq_getElem?_getD,
          hfin _ (by omega)]
        congr 1
        omega
      have hloop := ih (call + 1) (by omega) hholds hrest
      have hsplit : fin.length = (fin.take nbuf).length + (fin.drop nbuf).length := by omega
      rw [hblock]
      dsimp only
      rw [if_pos (htakes call), hloop, Option.bind_eq_bind, Option.bind_some, hsplit,
        List.range_add, List.map_append, List.map_map]
      refine congrArg (fun rest => some (_ ++ rest)) (List.map_congr_left ?_)
      intro k _
      rw [Function.comp_apply, Nat.add_assoc]

/-- The convolution of a file, from where all taps are in it. -/
def convolved (fin imp_resp : List R) : List R :=
  (List.range (fin.length + 1 - imp_resp.length)).map (filtered imp_resp (sequence fin))

theorem direct_file_filter_eq {takes : Nat → Bool} (htakes : ∀ k, takes k = true)
    {fin imp_resp : List R} (himp : 2 ≤ imp_resp.length) (memory : Nat → R) :
    direct_file_filter takes fin imp_resp memory =
      if imp_resp.length ≤ fin.length + 1 then some (convolved fin imp_resp) else none := by
  have htake : (fin.take (imp_resp.length - 1)).length = min (imp_resp.length - 1) fin.length :=
    List.length_take
  rw [direct_file_filter]
  by_cases hlong : imp_resp.length ≤ fin.length + 1
  · rw [if_neg (by omega), if_pos hlong]
    have hholds : Holds (imp_resp.length - 1) (sequence fin) 0
        (fun i => (fin.take (imp_resp.length - 1)).getD i (memory i)) 0 := by
      refine ⟨by omega, ?_⟩
      intro j hj
      rw [Nat.zero_add, Nat.mod_eq_of_lt hj, sequence, List.getD_eq_getElem?_getD,
        List.getElem?_take_of_lt hj, List.getD_eq_getElem?_getD,
        List.getElem?_eq_getElem (by omega), Option.getD_some, Option.getD_some]
    have hdrop : (fin.drop (imp_resp.length - 1)).length = fin.length - (imp_resp.length - 1) :=
      List.length_drop
    rw [direct_loop_eq htakes 0 (by omega) (by omega) hholds]
    · rw [hdrop, convolved, show fin.length - (imp_resp.length - 1) =
        fin.length + 1 - imp_resp.length by omega]
      simp only [Nat.zero_add]
    · intro k _
      rw [Nat.zero_add, sequence, List.getD_eq_getElem?_getD, List.getElem?_drop,
        List.getD_eq_getElem?_getD]
  · rw [if_pos (by omega), if_neg hlong]

end Direct

/-! ## By transforms -/

section Fast

variable {lib : Libm R} {imp_resp : List R} {m : Nat}

/-- At the start of a turn: `seen` samples of `x` have been read, of which the last `idx` are in
`inbuf`, and those in `fin` are the rest of `total`. -/
structure Filtering (lib : Libm R) (imp_resp : List R) (m : Nat) (x : Nat → R) (total seen : Nat)
    (cfg : FirCfg R) (inbuf outbuf : Buffer R) (idx : Nat) (fin : List R) : Prop where
  ready : FirReady lib imp_resp m cfg
  idx_le : idx ≤ seen
  idx_lt : idx < 2 * m
  fits : 2 * m ≤ inbuf.size
  bytes : inbuf.size * sizeof_kffsamp_t ≤ INT_MAX
  sizes : outbuf.size = inbuf.size
  total : total = seen + fin.length
  samples : ∀ k < fin.length, fin.getD k 0 = x (seen + k)
  cells : ∀ a < idx, inbuf.cell a = x (seen - idx + a)
  taps : idx < seen → imp_resp.length ≤ idx + 1

variable {takes : Nat → Bool} {x : Nat → R} {total seen idx : Nat} {cfg : FirCfg R}
  {inbuf outbuf : Buffer R} {fin : List R}

/-- `nread` and `nwrite` fit. -/
theorem Filtering.ints (h : Filtering lib imp_resp m x total seen cfg inbuf outbuf idx fin)
    {nread ndone : Nat} (hread : nread ≤ inbuf.size) (hdone : ndone ≤ inbuf.size) :
    ¬(INT_MAX < nread ∨ INT_MAX < ndone * sizeof_kffsamp_t) := by
  have hbytes := h.bytes
  simp only [sizeof_kffsamp_t] at hbytes ⊢
  omega

/-- The last turn, which reads nothing. -/
theorem Filtering.flush (h : Filtering lib imp_resp m x total seen cfg inbuf outbuf idx [])
    (htakes : ∀ k, takes k = true) (fuel call : Nat) :
    file_loop takes (fuel + 1) call cfg inbuf outbuf idx [] =
      if imp_resp.length ≤ total + 1 then
        some ((List.range (total + 1 - imp_resp.length - (seen - idx))).map fun k =>
          filtered imp_resp x (seen - idx + k))
      else none := by
  have hpos := h.ready.nonempty
  have hle := h.idx_le
  have hlt := h.idx_lt
  have hin := h.fits
  have hout := h.sizes
  have htaps := h.taps
  have htotal : total = seen := h.total
  have hwrites : ¬takes call = false := by
    rw [htakes call]
    decide
  have hnone : min (inbuf.size - idx) ([] : List R).length = 0 := Nat.min_zero _
  have hflush := kff_flush_eq h.ready (show idx ≤ inbuf.size by omega)
    (show idx ≤ outbuf.size by omega)
  rw [file_loop, hnone, Buffer.store_ok _ (by omega)]
  simp only [Option.bind_eq_bind, Option.bind_some]
  rw [Buffer.write_none, kiss_fastfir, if_pos rfl, Nat.zero_add]
  split at hflush
  · rename_i hfew
    obtain ⟨cfg', outbuf', hflush, -, hsize, hgood⟩ := hflush
    rw [hflush, if_pos (by omega)]
    simp only [Option.bind_eq_bind, Option.bind_some, Option.pure_def]
    rw [Buffer.load_ok (by omega), Option.bind_some,
      if_neg (h.ints (Nat.zero_le _) (show idx + 1 - imp_resp.length ≤ inbuf.size by omega)),
      if_neg hwrites, if_pos trivial,
      show total + 1 - imp_resp.length - (seen - idx) = idx + 1 - imp_resp.length by omega]
    refine congrArg some (List.map_congr_left ?_)
    intro t ht
    have ht := List.mem_range.mp ht
    rw [Nat.zero_add, hgood t ht, filtered_shift h.cells (by omega)]
  · rename_i hshort
    rw [hflush, if_neg (by omega)]
    rfl

/-- A turn that reads `nread` samples writes `done` values of the convolution. -/
theorem Filtering.turn (h : Filtering lib imp_resp m x total seen cfg inbuf outbuf idx fin)
    (htakes : ∀ k, takes k = true) (hmore : 0 < fin.length) :
    ∃ nread done left cfg' inbuf' outbuf', 0 < nread ∧
      Filtering lib imp_resp m x total (seen + nread) cfg' inbuf' outbuf' left (fin.drop nread) ∧
      seen + nread - left = seen - idx + done ∧ (0 < done → imp_resp.length ≤ left + 1) ∧
      ∀ fuel call, file_loop takes (fuel + 1) call cfg inbuf outbuf idx fin =
        (file_loop takes fuel (call + 1) cfg' inbuf' outbuf' left (fin.drop nread)).map fun rest =>
          (List.range done).map (fun t => filtered imp_resp x (seen - idx + t)) ++ rest := by
  have hle := h.idx_le
  have hlt := h.idx_lt
  have hin := h.fits
  have hout := h.sizes
  have htotal := h.total
  generalize hnread : min (inbuf.size - idx) fin.length = nread
  have hcells : ∀ a < idx + nread,
      (inbuf.write idx nread fun i => fin.getD i 0).cell a = x (seen - idx + a) := by
    refine Buffer.write_append _ h.cells ?_
    intro k hk
    rw [h.samples k (by omega), ← Nat.add_assoc, Nat.sub_add_cancel hle]
  obtain ⟨cfg', inbuf', outbuf', done, left, hfir, h', hsum, hleft, hfew, hin', hout', hgood,
    hmoved⟩ := kiss_fastfir_eq h.ready (show 0 < nread by omega)
      (show nread + idx ≤ (inbuf.write idx nread fun i => fin.getD i 0).size by
        rw [Buffer.write_size]
        omega)
      (show nread + idx ≤ outbuf.size by omega)
  rw [Buffer.write_size] at hin'
  have hplace : seen + nread - left = seen - idx + done := by omega
  refine ⟨nread, done, left, cfg', inbuf', outbuf', by omega, ?_, hplace, hfew, ?_⟩
  · refine ⟨h', by omega, hleft, by omega, hin'.symm ▸ h.bytes,
      hout'.trans (hout.trans hin'.symm), ?_, ?_, ?_, ?_⟩
    · rw [List.length_drop]
      omega
    · intro k hk
      rw [List.length_drop] at hk
      rw [List.getD_eq_getElem?_getD, List.getElem?_drop, ← List.getD_eq_getElem?_getD,
        h.samples _ (by omega), Nat.add_assoc]
    · intro a ha
      rw [hmoved a ha, hcells _ (by omega), hplace, Nat.add_assoc]
    · intro hfewer
      by_cases hnew : 0 < done
      · exact hfew hnew
      · have htaps := h.taps (by omega)
        omega
  · intro fuel call
    have hwrites : ¬takes call = false := by
      rw [htakes call]
      decide
    have hpart : (List.range done).map (fun t => outbuf'.cell (0 + t)) =
        (List.range done).map fun t => filtered imp_resp x (seen - idx + t) := by
      refine List.map_congr_left ?_
      intro t ht
      have ht := List.mem_range.mp ht
      have htaps := hfew (by omega)
      rw [Nat.zero_add, hgood t ht, filtered_shift hcells (by omega)]
    rw [file_loop, hnread, Buffer.store_ok _ (by omega)]
    simp only [Option.bind_eq_bind, Option.bind_some]
    rw [hfir, Option.bind_some]
    dsimp only
    rw [Buffer.load_ok (by omega), Option.bind_some, if_neg (h.ints (by omega) (by omega)),
      if_neg hwrites, if_neg (by omega), hpart, Option.map_eq_bind]
    rfl

/-- The loop writes what is left of the convolution. -/
theorem file_loop_eq (htakes : ∀ k, takes k = true) {fuel : Nat} (call : Nat)
    (h : Filtering lib imp_resp m x total seen cfg inbuf outbuf idx fin)
    (hfuel : fin.length < fuel) :
    file_loop takes fuel call cfg inbuf outbuf idx fin =
      if imp_resp.length ≤ total + 1 then
        some ((List.range (total + 1 - imp_resp.length - (seen - idx))).map fun k =>
          filtered imp_resp x (seen - idx + k))
      else none := by
  induction fuel generalizing call cfg inbuf outbuf idx seen fin with
  | zero => omega
  | succ fuel ih =>
    by_cases hmore : 0 < fin.length
    · obtain ⟨nread, done, left, cfg', inbuf', outbuf', hread, h', hplace, hfew, hturn⟩ :=
        h.turn htakes hmore
      have hfuel' : (fin.drop nread).length < fuel := by
        rw [List.length_drop]
        omega
      have hle := h'.total
      rw [hturn, ih (call + 1) h' hfuel', hplace]
      split
      · have hsplit : total + 1 - imp_resp.length - (seen - idx) =
            done + (total + 1 - imp_resp.length - (seen - idx + done)) := by
          by_cases hnew : 0 < done
          · have htaps := hfew hnew
            omega
          · omega
        rw [hsplit, List.range_add, List.map_append, List.map_map]
        refine congrArg (fun rest => some (_ ++ rest)) (List.map_congr_left ?_)
        intro t _
        rw [Function.comp_apply, Nat.add_assoc]
      · rfl
    · obtain rfl := List.eq_nil_of_length_eq_zero (Nat.eq_zero_of_not_pos hmore)
      exact h.flush htakes fuel call

theorem do_file_filter_eq (lib : Libm R) {takes : Nat → Bool} (htakes : ∀ k, takes k = true)
    {fin imp_resp : List R} {nfft : Nat} (husable : Usable imp_resp nfft)
    (hpos : 0 < imp_resp.length)
    (hint : n_samps_buf (used_nfft imp_resp.length nfft) imp_resp.length * sizeof_kffsamp_t ≤
      INT_MAX)
    (memory : FirCfg R) (old_in old_out : Nat → R) :
    do_file_filter lib takes fin imp_resp nfft memory old_in old_out =
      if imp_resp.length ≤ fin.length + 1 then some (convolved fin imp_resp) else none := by
  obtain ⟨m, cfg, halloc, hready, hused, -⟩ := husable.alloc lib hpos memory
  have hfits := hready.fits
  rw [← hused] at hint
  have hbuf : ∀ old : Nat → R,
      2 * m ≤ (⟨n_samps_buf (2 * m) imp_resp.length, old⟩ : Buffer R).size :=
    fun _ => Nat.le_add_right _ _
  have hfin : ∀ k < fin.length, fin.getD k 0 = sequence fin (0 + k) := by
    intro k _
    rw [Nat.zero_add, sequence]
  have hstart : Filtering lib imp_resp m (sequence fin) fin.length 0 cfg
      ⟨n_samps_buf (2 * m) imp_resp.length, old_in⟩ ⟨n_samps_buf (2 * m) imp_resp.length, old_out⟩
      0 fin :=
    ⟨hready, Nat.le_refl 0, by omega, hbuf old_in, hint, rfl, (Nat.zero_add _).symm, hfin,
      fun a ha => absurd ha (Nat.not_lt_zero a), fun hlt => absurd hlt (Nat.lt_irrefl 0)⟩
  have hloop := file_loop_eq htakes 0 hstart (Nat.lt_succ_self _)
  rw [do_file_filter, halloc, Option.bind_eq_bind, Option.bind_some, hready.nfft]
  refine hloop.trans ?_
  simp only [Nat.sub_zero, Nat.zero_add, convolved]

end Fast

/-- **The two filters.** For every file, every kernel of two taps or more and every size it can be
used with, for which the buffers are not too large for an `int`, when no write is short: in exact
arithmetic both write the convolution from where all taps are in the file, which may be nothing, and
both fail if the file has fewer samples than there are taps but one. -/
theorem file_filters_agree (lib : Libm R) {takes takes' : Nat → Bool}
    (htakes : ∀ k, takes k = true) (htakes' : ∀ k, takes' k = true) {imp_resp : List R} {nfft : Nat}
    (himp : 2 ≤ imp_resp.length) (husable : Usable imp_resp nfft)
    (hint : n_samps_buf (used_nfft imp_resp.length nfft) imp_resp.length * sizeof_kffsamp_t ≤
      INT_MAX)
    (fin : List R) (memory : FirCfg R) (old_in old_out circbuf : Nat → R) :
    let result := if imp_resp.length ≤ fin.length + 1 then some (convolved fin imp_resp) else none
    do_file_filter lib takes fin imp_resp nfft memory old_in old_out = result ∧
      direct_file_filter takes' fin imp_resp circbuf = result :=
  ⟨do_file_filter_eq lib htakes husable (by omega) hint memory old_in old_out,
    direct_file_filter_eq htakes' himp circbuf⟩

theorem file_filters_agree_two_taps :
    let result := if [1, (1 : ℝ)].length ≤ [1, 2, (3 : ℝ)].length + 1
      then some (convolved [1, 2, (3 : ℝ)] [1, 1]) else none
    do_file_filter Libm.real (fun _ => true) [1, 2, 3] [1, 1] 2 default (fun _ => 0) (fun _ => 0) =
        result ∧
      direct_file_filter (fun _ => true) [1, 2, 3] [1, 1] (fun _ => 0) = result :=
  file_filters_agree Libm.real (fun _ => rfl) (fun _ => rfl)
    (show 2 ≤ [1, (1 : ℝ)].length from Nat.le_refl 2)
    (show Usable [1, (1 : ℝ)] 2 from ⟨.inr ⟨rfl, Nat.le_refl 2⟩, by decide⟩)
    (show n_samps_buf (used_nfft 2 2) 2 * sizeof_kffsamp_t ≤ INT_MAX by decide) [1, 2, 3] default
    (fun _ => 0) (fun _ => 0) fun _ => 0

end KissFft
end SoundScreen
