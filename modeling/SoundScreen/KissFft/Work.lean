import SoundScreen.KissFft.Butterfly
import SoundScreen.KissFft.Factor

/-!
# SoundScreen.KissFft.Work

`kiss_fft.c`: `kf_work` splits a transform by the radices of its length and puts the parts together
with the butterflies.

* `kf_work_eq`: it computes the discrete Fourier transform, for every length up to `max_nfft` and
  every stride.
* `kiss_fft_stride_eq`: so does `kiss_fft_stride` with the state that `kiss_fft_alloc` sets up, also
  in place.
* `kiss_fft_inverse`: the transform and the inverse one give the numbers back, `nfft` times.
-/

namespace SoundScreen
namespace KissFft

open Function (update)
open Dft (dft)

variable {R : Type*} [Field R]

/-! ## The source -/

/-- `switch (p)`. -/
def kf_bfly (p Fout fstride : Nat) (st : Cfg R) (m : Nat) (mem : Nat → Cpx R) : Nat → Cpx R :=
  match p with
  | 2 => kf_bfly2 Fout fstride st m mem
  | 3 => kf_bfly3 Fout fstride st m mem
  | 4 => kf_bfly4 Fout fstride st m mem
  | 5 => kf_bfly5 Fout fstride st m mem
  | p => kf_bfly_generic Fout fstride st m p mem

/-- The list is what `factors` points to, and `f` where in `fin` the part starts. -/
def kf_work (st : Cfg R) (fin : Nat → Cpx R) (in_stride : Nat) :
    List (Nat × Nat) → Nat → Nat → Nat → (Nat → Cpx R) → Nat → Cpx R
  | [], _, _, _, mem => mem
  | (p, m) :: factors, Fout, f, fstride, mem =>
    let mem :=
      if m = 1 then
        (List.range p).foldl (fun mem k =>
          update mem (Fout + k) (fin (f + k * (fstride * in_stride)))) mem
      else
        (List.range p).foldl (fun mem k =>
          kf_work st fin in_stride factors (Fout + k * m) (f + k * (fstride * in_stride))
            (fstride * p) mem) mem
    kf_bfly p Fout fstride st m mem

/-- `memory` is what was in the block that is allocated, and around it. -/
def kiss_fft_alloc (lib : Libm R) (nfft : Nat) (inverse_fft : Bool) (memory : Cfg R) : Cfg R :=
  { memory with
    nfft := nfft
    inverse := inverse_fft
    twiddles := (List.range nfft).foldl (fun twiddles (i : Nat) =>
      let phase := -2 * lib.pi * i / nfft
      let phase := if inverse_fft then phase * -1 else phase
      update twiddles i (kf_cexp lib phase)) memory.twiddles
    factors := kf_factor nfft }

/-- There is no `fin` when it is the same as `fout`; `tmpbuf` is what was in the temporary
buffer. -/
def kiss_fft_stride (st : Cfg R) (tmpbuf : Nat → Cpx R) (fin : Option (Nat → Cpx R))
    (fout : Nat → Cpx R) (in_stride : Nat) : Nat → Cpx R :=
  match fin with
  | none =>
    let tmpbuf := kf_work st fout in_stride st.factors 0 0 1 tmpbuf
    fun k => if k < st.nfft then tmpbuf k else fout k
  | some fin => kf_work st fin in_stride st.factors 0 0 1 fout

def kiss_fft (cfg : Cfg R) (tmpbuf : Nat → Cpx R) (fin : Option (Nat → Cpx R))
    (fout : Nat → Cpx R) : Nat → Cpx R :=
  kiss_fft_stride cfg tmpbuf fin fout 1

/-! ## Parts of a turn -/

section Turn

variable (lib : Libm R) (inverse : Bool)

theorem turn_pow {n k : Nat} (hk : 0 < k) :
    turn lib inverse (n * k) ^ k = turn lib inverse n := by
  have hpart : (k : R) * (2 * lib.pi / (n * k : Nat)) = 2 * lib.pi / n := by
    rw [Nat.cast_mul, ← mul_div_assoc, mul_comm (k : R), mul_div_mul_right]
    exact lib.natCast_ne_zero k hk.ne'
  rw [turn, turn, ← kf_cexp_mul]
  split
  · rw [hpart]
  · rw [mul_neg, hpart]

theorem turn_two : turn lib inverse 2 = -1 := by
  have htwo := lib.two_ne_zero
  have hhalf : 2 * lib.pi / (2 : Nat) = lib.pi := by
    rw [Nat.cast_ofNat, mul_div_cancel_left₀ _ htwo]
  rw [turn, hhalf]
  split
  · exact kf_cexp_half lib
  · rw [kf_cexp_neg, kf_cexp_half, map_neg, map_one]

theorem turn_four : turn lib inverse 4 = if inverse then Cpx.I else -Cpx.I := by
  have htwo := lib.two_ne_zero
  have hquarter : 2 * lib.pi / (4 : Nat) = lib.pi * 2⁻¹ := by
    have hfour : ((4 : Nat) : R) = 2 * 2 := by norm_num
    rw [hfour, mul_div_mul_left _ _ htwo, div_eq_mul_inv]
  rw [turn, hquarter]
  split
  · exact kf_cexp_quarter lib
  · rw [kf_cexp_neg, kf_cexp_quarter, Cpx.conj_I]

end Turn

/-! ## One stage -/

section Stage

variable {lib : Libm R} {st : Cfg R}

/-- A state as `kiss_fft_alloc` leaves it: the radices are those of the length, and the twiddles the
powers of the part of a turn. -/
structure Ready (lib : Libm R) (st : Cfg R) : Prop where
  pos : 0 < st.nfft
  small : st.nfft ≤ max_nfft
  factors : Chain st.nfft st.factors
  twiddles : ∀ i < st.nfft, st.twiddles i = turn lib st.inverse st.nfft ^ i

theorem Ready.root (h : Ready lib st) {n fstride : Nat} (hn : st.nfft = n * fstride) :
    turn lib st.inverse st.nfft ^ fstride = turn lib st.inverse n := by
  have hpos := h.pos
  rw [hn] at hpos ⊢
  exact turn_pow lib st.inverse (Nat.pos_of_mul_pos_left hpos)

/-- The butterfly of a stage: each column is turned and transformed. -/
theorem kf_bfly_cell (h : Ready lib st) {p m fstride : Nat} (hn : st.nfft = p * m * fstride)
    (Fout : Nat) (mem : Nat → Cpx R) :
    (∀ u < m, ∀ q < p, kf_bfly p Fout fstride st m mem (Fout + (u + q * m)) =
      rotated (turn lib st.inverse (p * m)) p m u (Columns.column mem Fout m u) q) ∧
    ∀ a, a < Fout ∨ Fout + p * m ≤ a → kf_bfly p Fout fstride st m mem a = mem a := by
  have hroot := h.root hn
  have hpos : 0 < p * m * fstride := hn ▸ h.pos
  have hpm : 0 < p * m := Nat.pos_of_mul_pos_right hpos
  have hm : 0 < m := Nat.pos_of_mul_pos_left hpm
  have hreads : Reads st fstride (turn lib st.inverse (p * m)) p m := by
    intro i hi
    have hlt : i * fstride < st.nfft := by
      rw [hn]
      exact Nat.mul_lt_mul_of_pos_right hi (Nat.pos_of_mul_pos_left hpos)
    rw [h.twiddles _ hlt, ← hroot, ← pow_mul, Nat.mul_comm]
  have hpoint : turn lib st.inverse (p * m) ^ m = turn lib st.inverse p :=
    turn_pow lib st.inverse hm
  have hconj : turn lib st.inverse p * Cpx.conj (turn lib st.inverse p) = 1 :=
    turn_mul_conj lib st.inverse p
  have hprincipal := principal_turn lib st.inverse (Nat.pos_of_mul_pos_right hpm)
  unfold kf_bfly
  split
  · have hpass := kf_bfly2_pass Fout hreads (hpoint.trans (turn_two lib _))
    exact ⟨fun u hu q hq => hpass.cell mem hu hq, fun a ha => hpass.other mem ha⟩
  · have hpass := kf_bfly3_pass Fout hreads lib.two_ne_zero (hpoint ▸ hprincipal)
      (hpoint ▸ hconj)
    exact ⟨fun u hu q hq => hpass.cell mem hu hq, fun a ha => hpass.other mem ha⟩
  · have hpass := kf_bfly4_pass Fout hreads (hpoint.trans (turn_four lib _))
    exact ⟨fun u hu q hq => hpass.cell mem hu hq, fun a ha => hpass.other mem ha⟩
  · have hpass := kf_bfly5_pass Fout hreads (hpoint ▸ hprincipal.pow_eq_one)
      (hpoint ▸ hconj)
    exact ⟨fun u hu q hq => hpass.cell mem hu hq, fun a ha => hpass.other mem ha⟩
  · have hpass := kf_bfly_generic_pass Fout hreads hn h.pos h.small
      (principal_turn lib st.inverse hpm).pow_eq_one
    exact ⟨fun u hu q hq => hpass.cell mem hu hq, fun a ha => hpass.other mem ha⟩

/-! ## All stages -/

/-- The transforms of the parts, before a stage puts them together. -/
def parts (lib : Libm R) (st : Cfg R) (fin : Nat → Cpx R) (in_stride p m f fstride : Nat)
    (q u : Nat) : Cpx R :=
  dft (turn lib st.inverse m) m
    (fun i => fin (f + q * (fstride * in_stride) + i * (fstride * p * in_stride))) u

/-- A stage makes the transform of the whole out of those of its parts. -/
theorem stage_eq (h : Ready lib st) {p m Fout fstride : Nat} (hn : st.nfft = p * m * fstride)
    (fin : Nat → Cpx R) (in_stride f : Nat) {mem mid : Nat → Cpx R}
    (hmid : ∀ u < m, ∀ q < p,
      mid (Fout + (u + q * m)) = parts lib st fin in_stride p m f fstride q u)
    (hrest : ∀ a, a < Fout ∨ Fout + p * m ≤ a → mid a = mem a) :
    (∀ k < p * m, kf_bfly p Fout fstride st m mid (Fout + k) =
      dft (turn lib st.inverse (p * m)) (p * m)
        (fun j => fin (f + j * (fstride * in_stride))) k) ∧
    ∀ a, a < Fout ∨ Fout + p * m ≤ a → kf_bfly p Fout fstride st m mid a = mem a := by
  have hpos : 0 < p * m := Nat.pos_of_mul_pos_right (hn ▸ h.pos)
  have hp : 0 < p := Nat.pos_of_mul_pos_right hpos
  obtain ⟨hcell, hother⟩ := kf_bfly_cell h hn Fout mid
  refine ⟨?_, fun a ha => (hother a ha).trans (hrest a ha)⟩
  intro k hk
  obtain ⟨hu, hq, hplace⟩ := Columns.place_eq hk
  have hone := (principal_turn lib st.inverse hpos).pow_eq_one
  have hsub : turn lib st.inverse (p * m) ^ p = turn lib st.inverse m := by
    rw [Nat.mul_comm]
    exact turn_pow lib st.inverse hp
  have hradix := Dft.dft_radix hone (fun j => fin (f + j * (fstride * in_stride))) (k % m) (k / m)
  rw [hplace] at hradix
  have hcell := hcell (k % m) hu (k / m) hq
  rw [hplace] at hcell
  rw [hcell, hradix, hsub, rotated]
  refine Dft.dft_congr ?_ _
  intro q hq
  rw [Columns.column, hmid _ hu q hq, parts]
  congr 1
  refine Dft.dft_congr ?_ _
  intro i _
  congr 1
  ring

theorem kf_work_eq (h : Ready lib st) (fin : Nat → Cpx R) (in_stride : Nat)
    {factors : List (Nat × Nat)} {n : Nat} (hchain : Chain n factors) {fstride : Nat}
    (hn : st.nfft = n * fstride) (Fout f : Nat) (mem : Nat → Cpx R) :
    (∀ k < n, kf_work st fin in_stride factors Fout f fstride mem (Fout + k) =
      dft (turn lib st.inverse n) n (fun j => fin (f + j * (fstride * in_stride))) k) ∧
    ∀ a, a < Fout ∨ Fout + n ≤ a →
      kf_work st fin in_stride factors Fout f fstride mem a = mem a := by
  induction factors generalizing n fstride Fout f mem with
  | nil => exact hchain.elim
  | cons factor factors ih =>
    obtain ⟨p, m⟩ := factor
    obtain ⟨rfl, hchain⟩ := hchain
    have hnext : st.nfft = m * (fstride * p) := by
      rw [hn]
      ring
    rw [kf_work]
    rcases hchain with ⟨rfl, rfl⟩ | ⟨hm, hchain⟩
    · have hfills : Columns.Fills (fun mem k =>
          update mem (Fout + k) (fin (f + k * (fstride * in_stride)))) Fout p 1
          (parts lib st fin in_stride p 1 f fstride) := by
        constructor
        · intro mem q hq u hu
          obtain rfl : u = 0 := by omega
          rw [Nat.mul_one, Nat.zero_add, Function.update_self, parts, Dft.dft_one, Nat.zero_mul,
            Nat.add_zero]
        · intro mem q hq a ha
          refine Function.update_of_ne ?_ _ _
          have hplace := ha 0 Nat.one_pos
          rwa [Nat.mul_one, Nat.zero_add] at hplace
      rw [if_pos rfl]
      exact stage_eq h hn fin in_stride f (fun u hu q hq => hfills.cell mem hu hq)
        fun a ha => hfills.other mem ha
    · have hfills : Columns.Fills (fun mem k =>
          kf_work st fin in_stride factors (Fout + k * m) (f + k * (fstride * in_stride))
            (fstride * p) mem) Fout p m (parts lib st fin in_stride p m f fstride) := by
        constructor
        · intro mem q hq u hu
          have hplace : Fout + (u + q * m) = Fout + q * m + u := by omega
          rw [hplace, (ih hchain hnext _ _ mem).1 u hu, parts]
        · intro mem q hq a ha
          refine (ih hchain hnext _ _ mem).2 a ?_
          by_contra hin
          exact ha (a - (Fout + q * m)) (by omega) (by omega)
      rw [if_neg (by omega)]
      exact stage_eq h hn fin in_stride f (fun u hu q hq => hfills.cell mem hu hq)
        fun a ha => hfills.other mem ha

end Stage

/-! ## The whole transform -/

variable (lib : Libm R)

theorem Ready.alloc {nfft : Nat} (hn : 0 < nfft) (hsmall : nfft ≤ max_nfft) (inverse_fft : Bool)
    (memory : Cfg R) : Ready lib (kiss_fft_alloc lib nfft inverse_fft memory) where
  pos := hn
  small := hsmall
  factors := kf_factor_chain hn
  twiddles i hi := by
    have hwrite := Loop.foldl_update (fun i => i) (fun i : Nat =>
      let phase := -2 * lib.pi * i / nfft
      let phase := if inverse_fft then phase * -1 else phase
      kf_cexp lib phase) memory.twiddles (show i < nfft from hi) fun j _ hne => Ne.symm hne
    refine hwrite.trans ?_
    have hphase : (if inverse_fft then -2 * lib.pi * i / nfft * -1 else -2 * lib.pi * i / nfft) =
        (i : R) * if inverse_fft then 2 * lib.pi / nfft else -(2 * lib.pi / nfft) := by
      split <;> ring
    dsimp only
    rw [hphase, kf_cexp_mul]
    rfl

variable {lib} in
theorem Ready.kiss_fft_stride {st : Cfg R} (h : Ready lib st) (tmpbuf : Nat → Cpx R)
    (fin : Option (Nat → Cpx R)) (fout : Nat → Cpx R) (in_stride k : Nat) :
    kiss_fft_stride st tmpbuf fin fout in_stride k =
      if k < st.nfft then
        dft (turn lib st.inverse st.nfft) st.nfft (fun j => fin.getD fout (j * in_stride)) k
      else fout k := by
  have hwork := fun fin mem => kf_work_eq h fin in_stride h.factors
    (show st.nfft = st.nfft * 1 from (Nat.mul_one _).symm) 0 0 mem
  simp only [Nat.zero_add, Nat.one_mul] at hwork
  by_cases hk : k < st.nfft
  · rw [if_pos hk]
    cases fin with
    | none => exact (if_pos hk).trans ((hwork fout tmpbuf).1 k hk)
    | some fin => exact (hwork fin fout).1 k hk
  · rw [if_neg hk]
    cases fin with
    | none => exact if_neg hk
    | some fin => exact (hwork fin fout).2 k (.inr (Nat.le_of_not_lt hk))

variable {lib} in
theorem Ready.kiss_fft {st : Cfg R} (h : Ready lib st) (tmpbuf : Nat → Cpx R)
    (fin : Option (Nat → Cpx R)) (fout : Nat → Cpx R) (k : Nat) :
    kiss_fft st tmpbuf fin fout k =
      if k < st.nfft then dft (turn lib st.inverse st.nfft) st.nfft (fin.getD fout) k
      else fout k := by
  rw [KissFft.kiss_fft, h.kiss_fft_stride]
  simp only [Nat.mul_one]

/-- **The transform.** For every length up to `max_nfft`, every stride and direction, in place or
not, and whatever was in the memory: in exact arithmetic `fout` holds the discrete Fourier transform
of every `in_stride`-th number of `fin`, and nothing behind it changes. -/
theorem kiss_fft_stride_eq {nfft : Nat} (hn : 0 < nfft) (hsmall : nfft ≤ max_nfft)
    (inverse_fft : Bool) (memory : Cfg R) (tmpbuf : Nat → Cpx R) (fin : Option (Nat → Cpx R))
    (fout : Nat → Cpx R) (in_stride k : Nat) :
    kiss_fft_stride (kiss_fft_alloc lib nfft inverse_fft memory) tmpbuf fin fout in_stride k =
      if k < nfft then
        ∑ j ∈ Finset.range nfft, fin.getD fout (j * in_stride) * turn lib inverse_fft nfft ^ (j * k)
      else fout k :=
  (Ready.alloc lib hn hsmall inverse_fft memory).kiss_fft_stride tmpbuf fin fout in_stride k

theorem kiss_fft_stride_three :
    kiss_fft_stride (kiss_fft_alloc Libm.real 3 false default) (fun _ => 0)
        (some fun _ => 1) (fun _ => 0) 2 1 =
      if 1 < 3 then
        ∑ j ∈ Finset.range 3, (some fun _ => 1).getD (fun _ => 0) (j * 2) *
          turn Libm.real false 3 ^ (j * 1)
      else 0 :=
  kiss_fft_stride_eq Libm.real (by decide) (by decide) false _ _ (some fun _ => 1) (fun _ => 0) 2 1

/-- **There and back.** In either order, and with separate buffers or in place, the transform and
the inverse one give the numbers `nfft` times, in exact arithmetic. -/
theorem kiss_fft_inverse {nfft : Nat} (hn : 0 < nfft) (hsmall : nfft ≤ max_nfft)
    (inverse_fft : Bool) (memory memory' : Cfg R) (tmpbuf tmpbuf' fout fout' x : Nat → Cpx R)
    {k : Nat} (hk : k < nfft) :
    let st := kiss_fft_alloc lib nfft inverse_fft memory
    let back := kiss_fft_alloc lib nfft (!inverse_fft) memory'
    kiss_fft back tmpbuf' (some (kiss_fft st tmpbuf (some x) fout)) fout' k = nfft * x k ∧
      kiss_fft back tmpbuf' none (kiss_fft st tmpbuf none x) k = nfft * x k := by
  have hprincipal := principal_turn lib inverse_fft hn
  have hinverse := turn_mul_inverse lib inverse_fft nfft
  have hst := Ready.alloc lib hn hsmall inverse_fft memory
  have hback := Ready.alloc lib hn hsmall (!inverse_fft) memory'
  constructor
  · refine ((hback.kiss_fft _ _ _ k).trans (if_pos hk)).trans ?_
    refine (Dft.dft_congr (fun j hj => ?_) k).trans (Dft.dft_dft hprincipal hinverse x hk)
    exact (hst.kiss_fft tmpbuf (some x) fout j).trans (if_pos hj)
  · refine ((hback.kiss_fft _ _ _ k).trans (if_pos hk)).trans ?_
    refine (Dft.dft_congr (fun j hj => ?_) k).trans (Dft.dft_dft hprincipal hinverse x hk)
    exact (hst.kiss_fft tmpbuf none x j).trans (if_pos hj)

theorem kiss_fft_inverse_three :
    let st := kiss_fft_alloc Libm.real 3 false default
    let back := kiss_fft_alloc Libm.real 3 true default
    kiss_fft back (fun _ => 0) (some (kiss_fft st (fun _ => 0) (some fun _ => 1) fun _ => 0))
        (fun _ => 0) 1 = (3 : Nat) * 1 ∧
      kiss_fft back (fun _ => 0) none (kiss_fft st (fun _ => 0) none fun _ => 1) 1 =
        (3 : Nat) * 1 :=
  kiss_fft_inverse Libm.real (by decide) (by decide) false _ _ _ _ _ _ (fun _ => 1) (by decide)

end KissFft
end SoundScreen
