import Mathlib.Data.Nat.Log
import SoundScreen.FirFilter.Slow

/-!
# SoundScreen.FirFilter.Fast

`JFastFIRFilter` in `FIR_filter/jfastfir.cpp`: the filter that is made of transforms of overlapping
blocks. What a block gives before it is wanted waits in `remainder`. The arithmetic is exact, and
`memcpy` copies parts of a buffer that overlap as `memmove` does; `none` stands for a number that an
`int` cannot hold too.

* `JFastFIRFilter.fast_stream`: what comes back for a stream of samples, in whatever chunks that are
  neither empty nor too large.
-/

namespace SoundScreen
namespace FirFilter

open KissFft

variable {R : Type*} [Field R]

structure JFastFIRFilter (R : Type*) where
  nfft : Nat
  cfg : FirCfg R
  idx_inbuf : Nat
  inbuf : Buffer R
  outbuf : Buffer R
  remainder : Buffer R
  remainder_ptr : Nat

namespace JFastFIRFilter

/-! ## The source -/

/-- `pow(2.0, ceil(log2(n)))`; of zero, the logarithm is minus infinity. -/
def power_of_two (n : Nat) : Nat := if n = 0 then 0 else 2 ^ Nat.clog 2 n

def reset (f : JFastFIRFilter R) : JFastFIRFilter R :=
  { f with remainder := ⟨f.nfft * 2, fun _ => 0⟩, idx_inbuf := 0, remainder_ptr := f.nfft }

/-- `memory` is what was in what is allocated. -/
def construct (lib : Libm R) (memory : FirCfg R) : Option (JFastFIRFilter R) := do
  let cfg ← kiss_fastfir_alloc lib [1] 2 memory
  let empty : Buffer R := ⟨0, fun _ => 0⟩
  return reset ⟨cfg.nfft, cfg, 0, empty, empty, empty, 0⟩

def setKernelSize (lib : Libm R) (f : JFastFIRFilter R) (imp_responce : List R) (nfft : Nat)
    (memory : FirCfg R) : Option (JFastFIRFilter R) :=
  if imp_responce.length = 0 then
    some f
  else do
    let cfg ← kiss_fastfir_alloc lib imp_responce (power_of_two nfft) memory
    return reset { f with nfft := cfg.nfft, cfg := cfg }

def setKernel (lib : Libm R) (f : JFastFIRFilter R) (imp_responce : List R) (memory : FirCfg R) :
    Option (JFastFIRFilter R) :=
  setKernelSize lib f imp_responce (power_of_two (imp_responce.length * 4)) memory

/-- "ensure enough storage" -/
def ensure_storage (f : JFastFIRFilter R) (Size : Nat) : JFastFIRFilter R :=
  if f.inbuf.size - f.idx_inbuf < Size then
    { f with inbuf := f.inbuf.resize (Size + f.nfft), outbuf := f.outbuf.resize (Size + f.nfft) }
  else f

/-- "return as much as posible from remainder buffer": the filter, `data`, and
`numfromremainder`. -/
def return_remainder (f : JFastFIRFilter R) (data : Buffer R) (Size : Nat) :
    Option (JFastFIRFilter R × Buffer R × Nat) := do
  let numfromremainder := min Size f.remainder_ptr
  if 0 < numfromremainder then
    let data ← data.memcpy 0 f.remainder 0 numfromremainder
    if numfromremainder < f.remainder_ptr then
      let remainder_ptr := f.remainder_ptr - numfromremainder
      let remainder ← f.remainder.move 0 numfromremainder remainder_ptr
      return ({ f with remainder := remainder, remainder_ptr := remainder_ptr }, data,
        numfromremainder)
    else
      return ({ f with remainder_ptr := 0 }, data, numfromremainder)
  else
    return (f, data, numfromremainder)

/-- "then return stuff from output buffer": `data`, of which the first `p` samples are done, and
`numfromoutbuf`. -/
def return_stuff (outbuf data : Buffer R) (p currentwantednum nwrite : Nat) :
    Option (Buffer R × Nat) :=
  let numfromoutbuf := min currentwantednum nwrite
  if 0 < numfromoutbuf then do
    let data ← data.memcpy p outbuf 0 numfromoutbuf
    return (data, numfromoutbuf)
  else
    some (data, numfromoutbuf)

/-- "any left over is added to remainder buffer" -/
def add_left_over (f : JFastFIRFilter R) (numfromoutbuf nwrite : Nat) :
    Option (JFastFIRFilter R) :=
  if numfromoutbuf < nwrite ∧ 0 < nwrite then do
    let remainder ← f.remainder.memcpy f.remainder_ptr f.outbuf numfromoutbuf
      (nwrite - numfromoutbuf)
    return { f with
      remainder := remainder
      remainder_ptr := f.remainder_ptr + (nwrite - numfromoutbuf) }
  else
    some f

/-- The filter, and `data` as it is written. -/
def Update (f : JFastFIRFilter R) (data : List R) : Option (JFastFIRFilter R × List R) := do
  let Size := data.length
  let f := ensure_storage f Size
  let buf : Buffer R := ⟨Size, sequence data⟩
  let inbuf ← f.inbuf.memcpy f.idx_inbuf buf 0 Size
  let (cfg, inbuf, outbuf, nwrite, idx_inbuf) ←
    kiss_fastfir f.cfg inbuf f.outbuf Size f.idx_inbuf
  -- both become an `int`
  if INT_MAX < Size ∨ INT_MAX < nwrite then
    none
  let f := { f with cfg := cfg, inbuf := inbuf, outbuf := outbuf, idx_inbuf := idx_inbuf }
  let (f, buf, numfromremainder) ← return_remainder f buf Size
  let currentwantednum := Size - numfromremainder
  let (buf, numfromoutbuf) ← return_stuff f.outbuf buf numfromremainder currentwantednum nwrite
  let currentwantednum := currentwantednum - numfromoutbuf
  let f ← add_left_over f numfromoutbuf nwrite
  let f := if 0 < currentwantednum then
      { f with remainder_ptr := f.remainder_ptr + currentwantednum }
    else f
  return (f, (List.range Size).map buf.cell)

/-! ## One chunk -/

section Chunk

variable {lib : Libm R} {imp_responce : List R} {m : Nat} {x y : Nat → R} {late t : Nat}

/-- The filter has been given `t` samples of `x`, and what comes back is `y`. The last samples are
in `inbuf`, and what comes back next is in `remainder`. What comes after that is the convolution,
`late` samples late. -/
structure After (lib : Libm R) (imp_responce : List R) (m : Nat) (x y : Nat → R) (late t : Nat)
    (f : JFastFIRFilter R) : Prop where
  cfg : FirReady lib imp_responce m f.cfg
  small : m * 3 ≤ INT_MAX
  nfft : f.nfft = 2 * m
  idx_le : f.idx_inbuf ≤ t
  idx_lt : f.idx_inbuf < 2 * m
  idx_in : f.idx_inbuf ≤ f.inbuf.size
  outbuf : f.outbuf.size = f.inbuf.size
  cells : ∀ a < f.idx_inbuf, f.inbuf.cell a = x (t - f.idx_inbuf + a)
  taps : f.idx_inbuf < t → imp_responce.length ≤ f.idx_inbuf + 1
  size : f.remainder.size = 2 * m * 2
  late_ge : 2 * m ≤ late
  late_le : late ≤ 2 * m * 2
  block : f.remainder_ptr + f.idx_inbuf = late
  remainder : ∀ a < f.remainder_ptr, f.remainder.cell a = y (t + a)
  ahead : ∀ a, f.remainder_ptr ≤ a → y (t + a) = filtered imp_responce x (t + a - late)

theorem After.storage {f : JFastFIRFilter R} (h : After lib imp_responce m x y late t f)
    (Size : Nat) :
    After lib imp_responce m x y late t (ensure_storage f Size) ∧
      Size + (ensure_storage f Size).idx_inbuf ≤ (ensure_storage f Size).inbuf.size := by
  have hin := h.idx_in
  have hlt := h.idx_lt
  have hroom : Size + f.idx_inbuf ≤ Size + f.nfft := by
    rw [h.nfft]
    omega
  rw [ensure_storage]
  split
  · refine ⟨{ h with
      idx_in := Nat.le_trans (Nat.le_add_left _ _) hroom
      outbuf := rfl
      cells := ?_ }, hroom⟩
    intro a ha
    rw [Buffer.resize_cell _ _ (Nat.lt_of_lt_of_le ha hin), h.cells a ha]
  · exact ⟨h, by omega⟩

omit [Field R] in
theorem return_remainder_eq (f : JFastFIRFilter R) {data : Buffer R} {Size : Nat}
    (hdata : data.size = Size) (hptr : f.remainder_ptr ≤ f.remainder.size) :
    ∃ remainder data', return_remainder f data Size =
        some ({ f with
          remainder := remainder
          remainder_ptr := f.remainder_ptr - min Size f.remainder_ptr }, data',
          min Size f.remainder_ptr) ∧
      remainder.size = f.remainder.size ∧ data'.size = Size ∧
      (∀ a < f.remainder_ptr - min Size f.remainder_ptr,
        remainder.cell a = f.remainder.cell (min Size f.remainder_ptr + a)) ∧
      ∀ a < min Size f.remainder_ptr, data'.cell a = f.remainder.cell a := by
  generalize hcount : min Size f.remainder_ptr = numfromremainder
  rw [return_remainder]
  dsimp only
  rw [hcount]
  by_cases hsome : 0 < numfromremainder
  · rw [if_pos hsome, Buffer.memcpy_ok (by omega) (by omega)]
    simp only [Option.bind_eq_bind, Option.bind_some]
    have hcopied : ∀ a < numfromremainder, (data.write 0 numfromremainder fun i =>
        f.remainder.cell (0 + i)).cell a = f.remainder.cell a := by
      intro a ha
      rw [Buffer.write_in _ _ (Nat.zero_le a) (by omega), Nat.zero_add, Nat.sub_zero]
    by_cases hmore : numfromremainder < f.remainder_ptr
    · rw [if_pos hmore, Buffer.move_ok (by omega) (by omega), Option.bind_some]
      refine ⟨_, data.write 0 numfromremainder _, rfl, rfl, hdata, ?_, hcopied⟩
      intro a ha
      rw [Buffer.write_in _ _ (Nat.zero_le a) (by omega), Nat.sub_zero]
    · rw [if_neg hmore]
      refine ⟨f.remainder, data.write 0 numfromremainder _, ?_, rfl, hdata,
        fun a ha => by omega, hcopied⟩
      rw [show f.remainder_ptr - numfromremainder = 0 by omega]
      rfl
  · obtain rfl : numfromremainder = 0 := by omega
    rw [if_neg hsome]
    refine ⟨f.remainder, data, rfl, rfl, hdata, fun a _ => ?_, fun a ha => by omega⟩
    rw [Nat.zero_add]

omit [Field R] in
theorem return_stuff_eq (outbuf : Buffer R) {data : Buffer R} {p want nwrite : Nat}
    (hdata : p + want ≤ data.size) (hout : nwrite ≤ outbuf.size) :
    ∃ data', return_stuff outbuf data p want nwrite = some (data', min want nwrite) ∧
      (∀ a < p, data'.cell a = data.cell a) ∧
      ∀ a < min want nwrite, data'.cell (p + a) = outbuf.cell a := by
  rw [return_stuff]
  split
  · rw [Buffer.memcpy_ok (by omega) (by omega)]
    refine ⟨_, rfl, fun a ha => Buffer.write_out _ _ (.inl ha), fun a ha => ?_⟩
    rw [Buffer.write_in _ _ (by omega) (by omega), Nat.zero_add, Nat.add_sub_cancel_left]
  · exact ⟨data, rfl, fun _ _ => rfl, fun a ha => by omega⟩

omit [Field R] in
theorem add_left_over_eq (f : JFastFIRFilter R) {numfromoutbuf nwrite : Nat}
    (hcount : numfromoutbuf ≤ nwrite) (hout : nwrite ≤ f.outbuf.size)
    (hroom : f.remainder_ptr + (nwrite - numfromoutbuf) ≤ f.remainder.size) :
    ∃ remainder, add_left_over f numfromoutbuf nwrite =
        some { f with
          remainder := remainder
          remainder_ptr := f.remainder_ptr + (nwrite - numfromoutbuf) } ∧
      remainder.size = f.remainder.size ∧
      (∀ a < f.remainder_ptr, remainder.cell a = f.remainder.cell a) ∧
      ∀ a < nwrite - numfromoutbuf,
        remainder.cell (f.remainder_ptr + a) = f.outbuf.cell (numfromoutbuf + a) := by
  rw [add_left_over]
  split
  · rw [Buffer.memcpy_ok (by omega) hroom]
    refine ⟨_, rfl, rfl, fun a ha => Buffer.write_out _ _ (.inl ha), fun a ha => ?_⟩
    rw [Buffer.write_in _ _ (by omega) (by omega), Nat.add_sub_cancel_left]
  · rw [show nwrite - numfromoutbuf = 0 by omega]
    exact ⟨f.remainder, rfl, rfl, fun _ _ => rfl, fun a ha => by omega⟩

/-- A chunk that is not empty, and that an `int` can count together with a block. -/
def Sized (data : List R) : Prop := data ≠ [] ∧ data.length * 3 ≤ INT_MAX

theorem After.step (lib : Libm R) (imp_responce : List R) (m : Nat) (x y : Nat → R)
    (late : Nat) :
    Chunks.Step Update Sized x y (After lib imp_responce m x y late) := by
  rintro t f data ⟨hdata, hint⟩ hpart h
  have hpos := List.length_pos_of_ne_nil hdata
  obtain ⟨hstored, hfits⟩ := h.storage data.length
  rw [Update]
  dsimp only
  generalize ensure_storage f data.length = g at hstored hfits ⊢
  have hblock := hstored.block
  have hidx := hstored.idx_le
  have hlt := hstored.idx_lt
  have hlate := hstored.late_le
  have hearly := hstored.late_ge
  have hsize := hstored.size
  rw [Buffer.memcpy_ok (by simp) (by omega)]
  simp only [Option.bind_eq_bind, Option.bind_some]
  generalize hin : g.inbuf.write g.idx_inbuf data.length _ = inbuf
  have hcells : ∀ a < g.idx_inbuf + data.length, inbuf.cell a = x (t - g.idx_inbuf + a) := by
    rw [← hin]
    refine Buffer.write_append _ hstored.cells ?_
    intro k hk
    rw [Nat.zero_add, KissFft.sequence, List.getD_eq_getElem?_getD, hpart k hk, Option.getD_some,
      ← Nat.add_assoc, Nat.sub_add_cancel hidx]
  have hinsize : inbuf.size = g.inbuf.size := by rw [← hin, Buffer.write_size]
  have houtsize := hstored.outbuf
  obtain ⟨cfg, inbuf', outbuf, done, left, hfir, hcfg, hsum, hleft, htaps, hin', hout', hgood,
    hmoved⟩ := kiss_fastfir_eq hstored.cfg hpos
      (show data.length + g.idx_inbuf ≤ inbuf.size by omega)
      (show data.length + g.idx_inbuf ≤ g.outbuf.size by omega)
  obtain ⟨remainder, buf, hrem, hrsize, hbsize, hrcells, hbcells⟩ := return_remainder_eq
    { g with cfg := cfg, inbuf := inbuf', outbuf := outbuf, idx_inbuf := left }
    (show (⟨data.length, KissFft.sequence data⟩ : Buffer R).size = data.length from rfl)
    (show g.remainder_ptr ≤ g.remainder.size by omega)
  dsimp only at hrem hrsize hrcells hbcells
  generalize hcount : min data.length g.remainder_ptr = numfromremainder at hrem hrcells hbcells
  -- the block that is done reaches as far as what is wanted
  have hwant : min (data.length - numfromremainder) done = data.length - numfromremainder := by
    omega
  obtain ⟨buf', hstuff, hbefore, hafter⟩ := return_stuff_eq outbuf
    (show numfromremainder + (data.length - numfromremainder) ≤ buf.size by omega)
    (show done ≤ outbuf.size by omega)
  rw [hwant] at hstuff hafter
  obtain ⟨remainder', hadd, hsize', hfront, hback⟩ := add_left_over_eq
    { g with
      cfg := cfg
      inbuf := inbuf'
      outbuf := outbuf
      idx_inbuf := left
      remainder := remainder
      remainder_ptr := g.remainder_ptr - numfromremainder }
    (show data.length - numfromremainder ≤ done by omega)
    (show done ≤ outbuf.size by omega)
    (show g.remainder_ptr - numfromremainder + (done - (data.length - numfromremainder)) ≤
      remainder.size by omega)
  dsimp only at hadd hsize' hfront hback
  have hints : ¬(INT_MAX < data.length ∨ INT_MAX < done) := by
    have hsmall := hstored.small
    omega
  rw [hfir, Option.bind_some]
  dsimp only
  rw [if_neg hints, hrem, Option.bind_some]
  dsimp only
  rw [hstuff, Option.bind_some]
  dsimp only
  rw [hadd, Option.bind_some, if_neg (by omega)]
  have hdone : ∀ a < done, outbuf.cell a = y (t + (g.remainder_ptr + a)) := by
    intro a ha
    have htaps := htaps (by omega)
    rw [hgood a ha, filtered_shift hcells (by omega),
      hstored.ahead (g.remainder_ptr + a) (Nat.le_add_right _ _)]
    congr 1
    omega
  refine ⟨_, congrArg some (Prod.ext rfl (List.map_congr_left ?_)), hcfg, hstored.small,
    hstored.nfft, ?_, hleft, ?_, ?_, ?_, ?_, ?_, hearly, hlate, ?_, ?_, ?_⟩
  · intro a ha
    have ha := List.mem_range.mp ha
    by_cases hrem : a < numfromremainder
    · rw [hbefore a hrem, hbcells a hrem, hstored.remainder a (by omega)]
    · have hnew := hafter (a - numfromremainder) (by omega)
      rw [Nat.add_sub_cancel' (by omega)] at hnew
      rw [hnew, hdone _ (by omega)]
      congr 1
      omega
  · change left ≤ t + data.length
    omega
  · change left ≤ inbuf'.size
    omega
  · change outbuf.size = inbuf'.size
    omega
  · intro a ha
    change inbuf'.cell a = x (t + data.length - left + a)
    change a < left at ha
    rw [hmoved a ha, hcells _ (by omega)]
    congr 1
    omega
  · intro hlt
    change left < t + data.length at hlt
    change imp_responce.length ≤ left + 1
    by_cases hnew : 0 < done
    · exact htaps hnew
    · have hold := hstored.taps (by omega)
      omega
  · exact hsize'.trans (hrsize.trans hsize)
  · dsimp only
    omega
  · intro a ha
    dsimp only at ha ⊢
    by_cases hold : a < g.remainder_ptr - numfromremainder
    · rw [hfront a hold, hrcells a hold, hstored.remainder _ (by omega)]
      congr 1
      omega
    · have hnew := hback (a - (g.remainder_ptr - numfromremainder)) (by omega)
      rw [Nat.add_sub_cancel' (by omega)] at hnew
      rw [hnew, hdone _ (by omega)]
      congr 1
      omega
  · intro a ha
    dsimp only at ha
    rw [Nat.add_assoc, hstored.ahead _ (by omega)]

omit [Field R] in
theorem return_no_remainder (f : JFastFIRFilter R) (data : Buffer R) :
    return_remainder f data 0 = some (f, data, 0) := by
  rw [return_remainder]
  dsimp only
  rw [Nat.zero_min, if_neg (Nat.lt_irrefl 0)]
  rfl

omit [Field R] in
theorem return_no_stuff (outbuf data : Buffer R) (p nwrite : Nat) :
    return_stuff outbuf data p 0 nwrite = some (data, 0) := by
  rw [return_stuff, Nat.zero_min, if_neg (Nat.lt_irrefl 0)]

/-- What comes back when the samples from `t + ptr` on are given once, `k` of them, before they come
as they would have come. -/
def flushed (imp_responce : List R) (x y : Nat → R) (late t ptr k T : Nat) : R :=
  if T < t + ptr + k then y T else filtered imp_responce x (T - (late + k))

/-- A chunk of no samples is a flush. It needs as many samples in `inbuf` as there are taps but one,
and room in `remainder`. -/
theorem After.nothing {f : JFastFIRFilter R} (h : After lib imp_responce m x y late t f)
    (hroom : late + (f.idx_inbuf + 1 - imp_responce.length) ≤ 2 * m * 2) :
    if imp_responce.length ≤ f.idx_inbuf + 1 then
      ∃ f', Update f [] = some (f', []) ∧
        After lib imp_responce m x (flushed imp_responce x y late t f.remainder_ptr
          (f.idx_inbuf + 1 - imp_responce.length))
          (late + (f.idx_inbuf + 1 - imp_responce.length)) t f'
    else Update f [] = none := by
  have hblock := h.block
  have hin := h.idx_in
  have hout := h.outbuf
  have hsize := h.size
  have hlate := h.late_ge
  have hpos := h.cfg.nonempty
  have hidx := h.idx_le
  have hstorage : ensure_storage f 0 = f := if_neg (Nat.not_lt_zero _)
  have hflush := kff_flush_eq h.cfg (show 0 + f.idx_inbuf ≤ f.inbuf.size by omega)
    (show 0 + f.idx_inbuf ≤ f.outbuf.size by omega)
  have hcopy : f.inbuf.memcpy f.idx_inbuf ⟨0, KissFft.sequence []⟩ 0 0 = some f.inbuf := by
    rw [Buffer.memcpy_ok (Nat.zero_le _) hin, Buffer.write_none]
  rw [Update]
  dsimp only
  rw [List.length_nil, hstorage, hcopy]
  simp only [Option.bind_eq_bind, Option.bind_some]
  rw [kiss_fastfir, if_pos rfl]
  rw [Nat.zero_add] at hflush ⊢
  split
  · rename_i hlong
    rw [if_pos hlong] at hflush
    generalize hcount : f.idx_inbuf + 1 - imp_responce.length = k at hflush hroom ⊢
    obtain ⟨cfg, outbuf, hflush, hcfg, hout', hgood⟩ := hflush
    obtain ⟨remainder, hadd, hsize', hfront, hback⟩ := add_left_over_eq
      { f with cfg := cfg, outbuf := outbuf } (Nat.zero_le k) (show k ≤ outbuf.size by omega)
      (show f.remainder_ptr + (k - 0) ≤ f.remainder.size by omega)
    refine ⟨{ f with
      cfg := cfg
      outbuf := outbuf
      remainder := remainder
      remainder_ptr := f.remainder_ptr + k }, ?_, { h with
      cfg := hcfg
      outbuf := hout'.trans hout
      size := hsize'.trans hsize
      late_ge := Nat.le_add_right_of_le hlate
      late_le := hroom
      block := ?_
      remainder := ?_
      ahead := ?_ }⟩
    · have hints : ¬(INT_MAX < 0 ∨ INT_MAX < k) := by
        have hsmall := h.small
        have hlt := h.idx_lt
        simp only [INT_MAX] at hsmall ⊢
        omega
      rw [hflush]
      simp only [Option.bind_eq_bind, Option.bind_some, Option.pure_def]
      rw [if_neg hints, return_no_remainder, Option.bind_some]
      dsimp only
      rw [return_no_stuff, Option.bind_some]
      dsimp only
      rw [hadd, Option.bind_some, if_neg (Nat.lt_irrefl 0)]
      rfl
    · dsimp only
      omega
    · intro a ha
      dsimp only at ha ⊢
      rw [flushed, if_pos (by omega)]
      by_cases hold : a < f.remainder_ptr
      · rw [hfront a hold, h.remainder a hold]
      · have hnew := hback (a - f.remainder_ptr) (by omega)
        dsimp only at hnew
        rw [Nat.add_sub_cancel' (by omega), Nat.zero_add] at hnew
        rw [hnew, hgood _ (by omega), filtered_shift h.cells (by omega), h.ahead a (by omega)]
        congr 1
        omega
    · intro a ha
      dsimp only at ha
      rw [flushed, if_neg (by omega)]
  · rename_i hshort
    rw [if_neg hshort] at hflush
    rw [hflush]
    rfl

end Chunk

/-! ## The object -/

/-- What the object can be after any calls. -/
inductive Reached (lib : Libm R) : JFastFIRFilter R → Prop
  | construct {memory f} (h : construct lib memory = some f) : Reached lib f
  | reset {f} (h : Reached lib f) : Reached lib f.reset
  | setKernelSize {f f' imp_responce nfft memory} (h : Reached lib f)
      (hset : setKernelSize lib f imp_responce nfft memory = some f') : Reached lib f'
  | setKernel {f f' imp_responce memory} (h : Reached lib f)
      (hset : setKernel lib f imp_responce memory = some f') : Reached lib f'
  | update {f f' data out} (h : Reached lib f) (hupdate : Update f data = some (f', out)) :
      Reached lib f'

section Object

variable {lib : Libm R}

/-- The object can be made, whatever was in the memory. -/
theorem exists_reached (lib : Libm R) (memory : FirCfg R) : ∃ f, Reached lib f := by
  have husable : Usable [(1 : R)] 2 :=
    ⟨.inr ⟨rfl, Nat.le_succ 1⟩, show used_nfft 1 2 / 2 * 3 ≤ INT_MAX by decide⟩
  obtain ⟨m, cfg, halloc, -⟩ := husable.alloc lib Nat.one_pos memory
  have hconstruct : construct lib memory =
      some (reset ⟨cfg.nfft, cfg, 0, ⟨0, fun _ => 0⟩, ⟨0, fun _ => 0⟩, ⟨0, fun _ => 0⟩, 0⟩) := by
    rw [construct, halloc]
    rfl
  exact ⟨_, Reached.construct hconstruct⟩

theorem setKernelSize_sizes {f f' : JFastFIRFilter R} {imp_responce : List R} {nfft : Nat}
    {memory : FirCfg R} (h : setKernelSize lib f imp_responce nfft memory = some f') :
    f'.inbuf = f.inbuf ∧ f'.outbuf = f.outbuf := by
  rw [setKernelSize] at h
  split at h
  · cases h
    exact ⟨rfl, rfl⟩
  · obtain ⟨cfg, -, h⟩ := Option.bind_eq_some_iff.mp h
    cases h
    exact ⟨rfl, rfl⟩

omit [Field R] in
theorem return_remainder_sizes {f f' : JFastFIRFilter R} {data data' : Buffer R}
    {Size count : Nat} (h : return_remainder f data Size = some (f', data', count)) :
    f'.inbuf = f.inbuf ∧ f'.outbuf = f.outbuf := by
  rw [return_remainder] at h
  dsimp only at h
  split at h
  · obtain ⟨data'', -, h⟩ := Option.bind_eq_some_iff.mp h
    split at h
    · obtain ⟨remainder, -, h⟩ := Option.bind_eq_some_iff.mp h
      cases h
      exact ⟨rfl, rfl⟩
    · cases h
      exact ⟨rfl, rfl⟩
  · cases h
    exact ⟨rfl, rfl⟩

omit [Field R] in
theorem add_left_over_sizes {f f' : JFastFIRFilter R} {count nwrite : Nat}
    (h : add_left_over f count nwrite = some f') :
    f'.inbuf = f.inbuf ∧ f'.outbuf = f.outbuf := by
  rw [add_left_over] at h
  split at h
  · obtain ⟨remainder, -, h⟩ := Option.bind_eq_some_iff.mp h
    cases h
    exact ⟨rfl, rfl⟩
  · cases h
    exact ⟨rfl, rfl⟩

theorem Update_sizes {f f' : JFastFIRFilter R} {data out : List R}
    (h : Update f data = some (f', out)) (hsame : f.outbuf.size = f.inbuf.size) :
    f'.outbuf.size = f'.inbuf.size := by
  have hstorage : (ensure_storage f data.length).outbuf.size =
      (ensure_storage f data.length).inbuf.size := by
    rw [ensure_storage]
    split
    · rfl
    · exact hsame
  obtain ⟨inbuf, hcopy, h⟩ := Option.bind_eq_some_iff.mp h
  obtain ⟨⟨cfg, inbuf1, outbuf1, nwrite, idx⟩, hfir, h⟩ := Option.bind_eq_some_iff.mp h
  dsimp only at h
  split at h
  · cases h
  obtain ⟨⟨f1, buf1, count⟩, hrem, h⟩ := Option.bind_eq_some_iff.mp h
  obtain ⟨⟨buf2, count'⟩, -, h⟩ := Option.bind_eq_some_iff.mp h
  obtain ⟨f2, hadd, h⟩ := Option.bind_eq_some_iff.mp h
  obtain ⟨hin, hout⟩ := kiss_fastfir_size hfir
  obtain ⟨hin1, hout1⟩ := return_remainder_sizes hrem
  obtain ⟨hin2, hout2⟩ := add_left_over_sizes hadd
  have hcopied := Buffer.memcpy_size hcopy
  have hsizes : f2.outbuf.size = f2.inbuf.size := by
    rw [hout2, hout1, hin2, hin1]
    dsimp only
    omega
  dsimp only at h
  split at h <;> (cases h; exact hsizes)

theorem Reached.sizes {f : JFastFIRFilter R} (h : Reached lib f) :
    f.outbuf.size = f.inbuf.size := by
  induction h with
  | construct h =>
    obtain ⟨cfg, -, h⟩ := Option.bind_eq_some_iff.mp h
    cases h
    rfl
  | reset _ ih => exact ih
  | setKernelSize _ hset ih =>
    obtain ⟨hin, hout⟩ := setKernelSize_sizes hset
    rw [hin, hout, ih]
  | setKernel _ hset ih =>
    obtain ⟨hin, hout⟩ := setKernelSize_sizes hset
    rw [hin, hout, ih]
  | update _ hupdate ih => exact Update_sizes hupdate ih

end Object

/-! ## The stream -/

section Stream

variable {lib : Libm R} {imp_responce : List R}

theorem setKernelSize_nfft {f f' : JFastFIRFilter R} (h : imp_responce ≠ []) {nfft : Nat}
    (hne : power_of_two nfft ≠ 0) {memory : FirCfg R}
    (hset : setKernelSize lib f imp_responce nfft memory = some f') :
    f'.nfft = power_of_two nfft := by
  have hpos := List.length_pos_of_ne_nil h
  rw [setKernelSize, if_neg (by omega)] at hset
  obtain ⟨cfg, halloc, hset⟩ := Option.bind_eq_some_iff.mp hset
  cases hset
  exact kiss_fastfir_alloc_nfft hne halloc

theorem setKernelSize_after {f : JFastFIRFilter R} (hf : Reached lib f) (h : imp_responce ≠ [])
    {nfft : Nat} (husable : Usable imp_responce (power_of_two nfft)) (memory : FirCfg R) :
    ∃ m f', setKernelSize lib f imp_responce nfft memory = some f' ∧ f'.nfft = 2 * m ∧
      ∀ x, After lib imp_responce m x (Fir.delay (2 * m) (filtered imp_responce x)) (2 * m) 0
        f' := by
  have hpos := List.length_pos_of_ne_nil h
  obtain ⟨m, cfg, halloc, hready, -, hsmall⟩ := husable.alloc lib hpos memory
  have hfits := hready.fits
  have hnfft := hready.nfft
  refine ⟨m, reset { f with nfft := cfg.nfft, cfg := cfg }, ?_, hnfft, fun x => ?_⟩
  · rw [setKernelSize, if_neg (by omega), halloc]
    rfl
  · refine ⟨hready, hsmall, hnfft, Nat.le_refl 0, ?_, Nat.zero_le _, hf.sizes,
      fun a ha => absurd ha (Nat.not_lt_zero a), fun hlt => absurd hlt (Nat.lt_irrefl 0), ?_,
      Nat.le_refl _, by omega, hnfft, fun a ha => ?_, fun a ha => ?_⟩
    · change 0 < 2 * m
      omega
    · change cfg.nfft * 2 = 2 * m * 2
      rw [hnfft]
    · change a < cfg.nfft at ha
      rw [hnfft] at ha
      rw [Nat.zero_add, Fir.delay, if_pos ha]
      rfl
    · change cfg.nfft ≤ a at ha
      rw [hnfft] at ha
      rw [Nat.zero_add, Fir.delay, if_neg (by omega)]

/-- **The stream.** For every object and every kernel with a size it can be used with: samples that
are given in any chunks that are neither empty nor too large come back in chunks of the same
lengths, `nfft` zeros first and then, in exact arithmetic, the convolution from where all taps are
in the stream. -/
theorem fast_stream {f : JFastFIRFilter R} (hf : Reached lib f) (h : imp_responce ≠ [])
    {nfft : Nat} (husable : Usable imp_responce (power_of_two nfft)) (memory : FirCfg R)
    {chunks : List (List R)}
    (hchunks : ∀ chunk ∈ chunks, chunk ≠ [] ∧ chunk.length * 3 ≤ INT_MAX) :
    ∃ f' f'' outs, setKernelSize lib f imp_responce nfft memory = some f' ∧
      Chunks.run Update f' chunks = some (f'', outs) ∧
      outs.map List.length = chunks.map List.length ∧
      outs.flatten = Chunks.part (Fir.delay f'.nfft (filtered imp_responce
        (KissFft.sequence chunks.flatten))) 0 chunks.flatten.length := by
  obtain ⟨m, f', hset, hnfft, hafter⟩ := setKernelSize_after hf h husable memory
  obtain ⟨f'', outs, hrun, hlengths, hflat, -⟩ :=
    Chunks.run_spec (After.step lib imp_responce m _ _ _) hchunks
      (Chunks.partOf_getD chunks.flatten 0) (hafter _)
  refine ⟨f', f'', outs, hset, hrun, hlengths, ?_⟩
  rw [hnfft]
  exact hflat

theorem fast_stream_two_taps :
    ∃ f f' f'' outs, setKernelSize Libm.real f [1, 2] 2 default = some f' ∧
      Chunks.run Update f' [[3], [4, 5]] = some (f'', outs) ∧
      outs.map List.length = [[3], [4, (5 : ℝ)]].map List.length ∧
      outs.flatten = Chunks.part (Fir.delay f'.nfft (filtered [1, 2]
        (KissFft.sequence [[3], [4, 5]].flatten))) 0 [[3], [4, (5 : ℝ)]].flatten.length := by
  obtain ⟨f, hf⟩ := exists_reached Libm.real default
  exact ⟨f, fast_stream hf (List.cons_ne_nil 1 [2])
    (show Usable [1, 2] (power_of_two 2) from ⟨.inr ⟨by decide, by decide⟩, by decide⟩) default
    (by simp [INT_MAX])⟩

/-- **A flush in the stream.** When a chunk is empty, fewer samples held back than there are taps
but one make the program leave its buffers. Otherwise the stream goes on as if it had not been
flushed up to the last sample held back, then repeats what was flushed, and is as many samples late
from there on. -/
theorem flush_repeats {f : JFastFIRFilter R} (hf : Reached lib f) (h : imp_responce ≠ [])
    {nfft : Nat} (husable : Usable imp_responce (power_of_two nfft)) (memory : FirCfg R)
    {chunks chunks' : List (List R)}
    (hchunks : ∀ chunk ∈ chunks, chunk ≠ [] ∧ chunk.length * 3 ≤ INT_MAX)
    (hchunks' : ∀ chunk ∈ chunks', chunk ≠ [] ∧ chunk.length * 3 ≤ INT_MAX) :
    ∃ f' f'' outs, setKernelSize lib f imp_responce nfft memory = some f' ∧
      Chunks.run Update f' chunks = some (f'', outs) ∧
      if imp_responce.length ≤ f''.idx_inbuf + 1 then
        ∃ f3 f4 outs', Update f'' [] = some (f3, []) ∧
          Chunks.run Update f3 chunks' = some (f4, outs') ∧
          outs'.flatten = Chunks.part (flushed imp_responce
              (KissFft.sequence (chunks ++ chunks').flatten)
              (Fir.delay f'.nfft (filtered imp_responce
                (KissFft.sequence (chunks ++ chunks').flatten))) f'.nfft chunks.flatten.length
              f''.remainder_ptr (f''.idx_inbuf + 1 - imp_responce.length))
            chunks.flatten.length chunks'.flatten.length
      else Update f'' [] = none := by
  obtain ⟨m, f', hset, hnfft, hafter⟩ := setKernelSize_after hf h husable memory
  have hpart := Chunks.partOf_getD (chunks ++ chunks').flatten (0 : R)
  rw [List.flatten_append] at hpart
  obtain ⟨hbefore, hbehind⟩ := hpart.append
  obtain ⟨f'', outs, hrun, -, -, hafter''⟩ :=
    Chunks.run_spec (After.step lib imp_responce m _ _ _) hchunks hbefore (hafter _)
  have hlt := hafter''.idx_lt
  have hpos := hafter''.cfg.nonempty
  have hnothing := hafter''.nothing (by omega)
  refine ⟨f', f'', outs, hset, hrun, ?_⟩
  split
  · rename_i hlong
    rw [if_pos hlong] at hnothing
    obtain ⟨f3, hflush, hafter3⟩ := hnothing
    obtain ⟨f4, outs', hrun', -, hflat', -⟩ :=
      Chunks.run_spec (After.step lib imp_responce m _ _ _) hchunks'
        (by rwa [Nat.zero_add] at hbehind ⊢) hafter3
    refine ⟨f3, f4, outs', hflush, hrun', ?_⟩
    rw [hnfft, List.flatten_append]
    rw [Nat.zero_add] at hflat'
    exact hflat'
  · rename_i hshort
    rwa [if_neg hshort] at hnothing

theorem flush_repeats_two_taps :
    ∃ f f' f'' outs, setKernelSize Libm.real f [1, 2] 2 default = some f' ∧
      Chunks.run Update f' [[3]] = some (f'', outs) ∧
      if [1, (2 : ℝ)].length ≤ f''.idx_inbuf + 1 then
        ∃ f3 f4 outs', Update f'' [] = some (f3, []) ∧
          Chunks.run Update f3 [[4, 5]] = some (f4, outs') ∧
          outs'.flatten = Chunks.part (flushed [1, 2]
              (KissFft.sequence ([[3]] ++ [[4, 5]]).flatten)
              (Fir.delay f'.nfft (filtered [1, 2]
                (KissFft.sequence ([[3]] ++ [[4, 5]]).flatten))) f'.nfft [[(3 : ℝ)]].flatten.length
              f''.remainder_ptr (f''.idx_inbuf + 1 - [1, (2 : ℝ)].length))
            [[(3 : ℝ)]].flatten.length [[4, (5 : ℝ)]].flatten.length
      else Update f'' [] = none := by
  obtain ⟨f, hf⟩ := exists_reached Libm.real default
  exact ⟨f, flush_repeats hf (List.cons_ne_nil 1 [2])
    (show Usable [1, 2] (power_of_two 2) from ⟨.inr ⟨by decide, by decide⟩, by decide⟩) default
    (by simp [INT_MAX]) (by simp [INT_MAX])⟩

end Stream

end JFastFIRFilter
end FirFilter
end SoundScreen
