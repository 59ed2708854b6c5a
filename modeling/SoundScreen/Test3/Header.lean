import Mathlib.Algebra.Order.Floor.Semifield
import Mathlib.Data.Rat.Floor
import SoundScreen.Lib.LittleEndian
import SoundScreen.Test3.ExampleWav

/-!
# SoundScreen.Test3.Header

The header of the input of `kiss_fft130_jfork1.0.0/test3.cpp`, and what its `main` computes from
it before the loop over the blocks, in 32-bit unsigned words. A `long` is taken to have 64 bits
and holds all of them.

* `pcm_sizes_eq`: the sizes, in exact arithmetic.
* `safe_iff`: the headers and answers for which they are what they should be.
-/

namespace SoundScreen
namespace Test3

open LittleEndian

/-- The numbers of `struct HEADER` that are computed with. -/
structure HEADER where
  format_type : UInt32
  channels : UInt32
  bits_per_sample : UInt32
  data_size : UInt32
  deriving DecidableEq, Repr

/-- `buffer4` or `buffer2`, read at a place, as a number. -/
def number (bytes : Vector UInt8 44) (start size : Nat) : UInt32 :=
  UInt32.ofNat (word (bytes.toList.extract start (start + size)))

/-- The `fread`s take up the 44 bytes one after the other. -/
def read_header (bytes : Vector UInt8 44) : HEADER where
  format_type := number bytes 20 2
  channels := number bytes 22 2
  bits_per_sample := number bytes 34 2
  data_size := number bytes 40 4

inductive Fault where
  | division_by_zero
  deriving DecidableEq, Repr

def divide (a b : UInt32) : Except Fault UInt32 :=
  if b = 0 then .error .division_by_zero else .ok (a / b)

/-- What the loop over the blocks is entered with; `data_buffer` is a number of bytes. -/
structure PcmLoop where
  data_buffer : Nat
  bytes_in_each_channel : Nat
  turns : Nat
  deriving DecidableEq, Repr

/-- `num_samples`, and the loop if there is one. `c` is the answer to "Dump sample data?". -/
def pcm_sizes (header : HEADER) (c : Char) : Except Fault (Nat × Option PcmLoop) := do
  let num_samples ← divide (8 * header.data_size) (header.channels * header.bits_per_sample)
  let size_of_each_sample := (header.channels * header.bits_per_sample) / 8
  if header.format_type = 1 then
    if c = 'Y' ∨ c = 'y' then
      let data_buffer := size_of_each_sample.toNat * SAMPLES
      let bytes_in_each_channel ← divide size_of_each_sample header.channels
      if bytes_in_each_channel * header.channels ≠ size_of_each_sample then
        return (num_samples.toNat, none)
      else
        return (num_samples.toNat,
          some ⟨data_buffer, bytes_in_each_channel.toNat, num_samples.toNat / SAMPLES⟩)
    else
      return (num_samples.toNat, none)
  else
    return (num_samples.toNat, none)

/-! ## The sizes in exact arithmetic -/

theorem toNat_number {bytes : Vector UInt8 44} {start size : Nat} (hsize : size ≤ 4) :
    (number bytes start size).toNat = word (bytes.toList.extract start (start + size)) ∧
      (number bytes start size).toNat < 256 ^ size := by
  have hlt := word_lt (bytes.toList.extract start (start + size))
  have hlen : (bytes.toList.extract start (start + size)).length ≤ size := by
    rw [List.extract_eq_take_drop, Nat.add_sub_cancel_left]
    exact List.length_take_le size _
  have hsmall : word (bytes.toList.extract start (start + size)) < 256 ^ size :=
    Nat.lt_of_lt_of_le hlt (Nat.pow_le_pow_right (by omega) hlen)
  have hword : (number bytes start size).toNat =
      word (bytes.toList.extract start (start + size)) := by
    rw [number, UInt32.toNat_ofNat']
    exact Nat.mod_eq_of_lt (Nat.lt_of_lt_of_le hsmall (Nat.pow_le_pow_right (by omega) hsize))
  exact ⟨hword, hword ▸ hsmall⟩

/-- Headers as they can be read: two fields have 16 bits. -/
structure HEADER.Narrow (header : HEADER) : Prop where
  channels : header.channels.toNat < 2 ^ 16
  bits_per_sample : header.bits_per_sample.toNat < 2 ^ 16

theorem read_header_narrow (bytes : Vector UInt8 44) : (read_header bytes).Narrow :=
  ⟨(toNat_number (by omega)).2, (toNat_number (by omega)).2⟩

/-- The bits of a frame. -/
def HEADER.frame (header : HEADER) : Nat := header.channels.toNat * header.bits_per_sample.toNat

/-- The loop over the blocks is reached. -/
def HEADER.IsPcm (header : HEADER) (c : Char) : Prop :=
  header.format_type = 1 ∧ (c = 'Y' ∨ c = 'y') ∧ header.channels.toNat ∣ header.frame / 8

instance (header : HEADER) (c : Char) : Decidable (header.IsPcm c) :=
  inferInstanceAs (Decidable (_ ∧ _))

theorem HEADER.Narrow.toNat_frame {header : HEADER} (h : header.Narrow) :
    (header.channels * header.bits_per_sample).toNat = header.frame := by
  have hlt : header.channels.toNat * header.bits_per_sample.toNat < 2 ^ 16 * 2 ^ 16 :=
    Nat.mul_lt_mul'' h.channels h.bits_per_sample
  rw [UInt32.toNat_mul]
  exact Nat.mod_eq_of_lt hlt

theorem HEADER.Narrow.frame_eq_zero {header : HEADER} (h : header.Narrow) :
    header.channels * header.bits_per_sample = 0 ↔ header.frame = 0 := by
  rw [← UInt32.toNat_inj, h.toNat_frame]
  rfl

theorem HEADER.Narrow.toNat_size {header : HEADER} (h : header.Narrow) :
    (header.channels * header.bits_per_sample / 8).toNat = header.frame / 8 := by
  rw [UInt32.toNat_div, h.toNat_frame]
  rfl

theorem HEADER.Narrow.toNat_num_samples {header : HEADER} (h : header.Narrow) :
    (8 * header.data_size / (header.channels * header.bits_per_sample)).toNat =
      8 * header.data_size.toNat % 2 ^ 32 / header.frame := by
  rw [UInt32.toNat_div, h.toNat_frame, UInt32.toNat_mul]
  rfl

/-- The test whose outcome is `size_is_correct`. -/
theorem HEADER.Narrow.size_is_correct_iff {header : HEADER} (h : header.Narrow) :
    header.channels * header.bits_per_sample / 8 / header.channels * header.channels =
        header.channels * header.bits_per_sample / 8 ↔
      header.channels.toNat ∣ header.frame / 8 := by
  have hle := Nat.div_mul_le_self (header.frame / 8) header.channels.toNat
  have hlt := (header.channels * header.bits_per_sample / 8).toNat_lt
  have hsize := h.toNat_size
  rw [← UInt32.toNat_inj, UInt32.toNat_mul, UInt32.toNat_div, hsize, Nat.dvd_iff_div_mul_eq,
    Nat.mod_eq_of_lt (by omega)]

theorem pcm_sizes_eq {header : HEADER} (h : header.Narrow) (c : Char) :
    pcm_sizes header c =
      if header.frame = 0 then .error .division_by_zero
      else .ok (8 * header.data_size.toNat % 2 ^ 32 / header.frame,
        if header.IsPcm c then some
          ⟨header.frame / 8 * SAMPLES, header.frame / 8 / header.channels.toNat,
            8 * header.data_size.toNat % 2 ^ 32 / header.frame / SAMPLES⟩
        else none) := by
  unfold pcm_sizes divide
  by_cases hm : header.frame = 0
  · rw [if_pos (h.frame_eq_zero.mpr hm), if_pos hm]
    rfl
  · have hchannels : header.channels ≠ 0 := by
      intro hc
      refine hm ?_
      rw [HEADER.frame, hc]
      exact Nat.zero_mul _
    rw [if_neg (mt h.frame_eq_zero.mp hm), if_neg hm]
    simp only [bind, Except.bind, if_neg hchannels, UInt32.toNat_div _ header.channels,
      h.toNat_size, h.toNat_num_samples, ne_eq, h.size_is_correct_iff]
    by_cases hformat : header.format_type = 1
    · by_cases hc : c = 'Y' ∨ c = 'y'
      · by_cases hd : header.channels.toNat ∣ header.frame / 8
        · rw [if_pos hformat, if_pos hc, if_neg (not_not.mpr hd), if_pos ⟨hformat, hc, hd⟩]
          rfl
        · rw [if_pos hformat, if_pos hc, if_pos hd, if_neg fun hpcm => hd hpcm.2.2]
          rfl
      · rw [if_pos hformat, if_neg hc, if_neg fun hpcm => hc hpcm.2.1]
        rfl
    · rw [if_neg hformat, if_neg fun hpcm => hformat hpcm.1]
      rfl

/-- What is computed is what it should be, and the bytes of one `fread` fit. -/
def Safe (header : HEADER) (c : Char) : Prop :=
  ∃ num_samples loop, pcm_sizes header c = .ok (num_samples, loop) ∧
    8 * header.data_size.toNat < 2 ^ 32 ∧
    num_samples = Nat.floor ((header.data_size.toNat : Rat) /
      (header.channels.toNat * header.bits_per_sample.toNat / 8)) ∧
    ∀ l ∈ loop, 1 ≤ l.turns → 2 * SAMPLES ≤ l.data_buffer

/-- Data of `d` bytes have as many frames of `m` bits as fit. -/
theorem floor_frames (d m : Nat) : Nat.floor ((d : Rat) / (m / 8)) = 8 * d / m := by
  have hcast : (d : Rat) / (m / 8) = ((8 * d : Nat) : Rat) / m := by
    push_cast
    rw [div_div_eq_mul_div, mul_comm]
  rw [hcast, Nat.floor_div_eq_div]

theorem turns_pos_iff {d m : Nat} (hd : d < 2 ^ 29) (hm : 0 < m) :
    1 ≤ 8 * d % 2 ^ 32 / m / SAMPLES ↔ SAMPLES * m ≤ 8 * d := by
  rw [Nat.mod_eq_of_lt (by omega), Nat.le_div_iff_mul_le SAMPLES_pos, Nat.one_mul,
    Nat.le_div_iff_mul_le hm]

theorem block_fits_iff (m : Nat) : 2 * SAMPLES ≤ m / 8 * SAMPLES ↔ 16 ≤ m := by
  rw [Nat.mul_le_mul_right_iff SAMPLES_pos]
  omega

theorem HEADER.Narrow.safe_iff_frame {header : HEADER} (h : header.Narrow) (c : Char) :
    Safe header c ↔ header.frame ≠ 0 ∧ header.data_size.toNat < 2 ^ 29 ∧
      (header.IsPcm c → SAMPLES * header.frame ≤ 8 * header.data_size.toNat →
        16 ≤ header.frame) := by
  have hcast : (header.channels.toNat * header.bits_per_sample.toNat / 8 : Rat) =
      (header.frame : Rat) / 8 := by
    rw [HEADER.frame, Nat.cast_mul]
  unfold Safe
  rw [pcm_sizes_eq h, hcast, floor_frames]
  by_cases hm : header.frame = 0
  · rw [if_pos hm]
    refine iff_of_false ?_ fun hsafe => hsafe.1 hm
    rintro ⟨num_samples, loop, hrun, -⟩
    cases hrun
  · have hpos : 0 < header.frame := Nat.pos_of_ne_zero hm
    rw [if_neg hm]
    constructor
    · rintro ⟨num_samples, loop, hrun, hwrap, -, hloop⟩
      obtain ⟨-, rfl⟩ := Prod.mk.inj (Except.ok.inj hrun)
      refine ⟨hm, by omega, ?_⟩
      intro hpcm hturn
      rw [if_pos hpcm] at hloop
      exact (block_fits_iff _).mp (hloop _ rfl ((turns_pos_iff (by omega) hpos).mpr hturn))
    · rintro ⟨-, hwrap, hloop⟩
      refine ⟨_, _, rfl, by omega, by rw [Nat.mod_eq_of_lt (by omega)], ?_⟩
      by_cases hpcm : header.IsPcm c
      · rw [if_pos hpcm]
        rintro l hl hturn
        cases hl
        exact (block_fits_iff _).mpr (hloop hpcm ((turns_pos_iff hwrap hpos).mp hturn))
      · rw [if_neg hpcm]
        rintro l hl
        cases hl

/-- **The header arithmetic.** For every header and answer: it is safe exactly if there are
channels and bits, the data are shorter than `2 ^ 29` bytes, and a frame has 16 bits or more if the
loop over the blocks is entered. -/
theorem safe_iff (bytes : Vector UInt8 44) (c : Char) :
    Safe (read_header bytes) c ↔
      (read_header bytes).channels ≠ 0 ∧ (read_header bytes).bits_per_sample ≠ 0 ∧
        (read_header bytes).data_size.toNat < 2 ^ 29 ∧
        ((read_header bytes).IsPcm c →
          SAMPLES * (read_header bytes).frame ≤ 8 * (read_header bytes).data_size.toNat →
            16 ≤ (read_header bytes).frame) := by
  have hframe : (read_header bytes).frame ≠ 0 ↔
      (read_header bytes).channels ≠ 0 ∧ (read_header bytes).bits_per_sample ≠ 0 := by
    rw [HEADER.frame, Nat.mul_ne_zero_iff, ne_eq, ne_eq, ne_eq, ne_eq, ← UInt32.toNat_inj,
      ← UInt32.toNat_inj]
    rfl
  rw [(read_header_narrow bytes).safe_iff_frame, hframe, and_assoc]

/-- A header of 8-bit samples, mono, with 1024 bytes of data. -/
def mono_8_bit : Vector UInt8 44 :=
  #v[82, 73, 70, 70, 0x24, 4, 0, 0, 87, 65, 86, 69, 102, 109, 116, 32, 16, 0, 0, 0, 1, 0, 1, 0,
    0x80, 0x3e, 0, 0, 0x80, 0x3e, 0, 0, 1, 0, 8, 0, 100, 97, 116, 97, 0, 4, 0, 0]

/-- A header of zeros is divided by, and after 8-bit samples one `fread` stores 2048 bytes in a
buffer of 1024. -/
theorem headers_not_safe :
    pcm_sizes (read_header (Vector.replicate 44 0)) 'n' = .error .division_by_zero ∧
    ¬Safe (read_header (Vector.replicate 44 0)) 'n' ∧
    pcm_sizes (read_header mono_8_bit) 'y' = .ok (1024, some ⟨1024, 1, 1⟩) ∧
    ¬Safe (read_header mono_8_bit) 'y' := by
  have hzeros : pcm_sizes (read_header (Vector.replicate 44 0)) 'n' =
      .error .division_by_zero := by
    decide +kernel
  have hmono : pcm_sizes (read_header mono_8_bit) 'y' = .ok (1024, some ⟨1024, 1, 1⟩) := by
    decide +kernel
  refine ⟨hzeros, ?_, hmono, ?_⟩
  · rintro ⟨num_samples, loop, hrun, -⟩
    rw [hzeros] at hrun
    cases hrun
  · rintro ⟨num_samples, loop, hrun, -, -, hloop⟩
    rw [hmono] at hrun
    obtain ⟨-, rfl⟩ := Prod.mk.inj (Except.ok.inj hrun)
    exact absurd (hloop _ rfl (Nat.le_refl 1)) (by decide)

end Test3
end SoundScreen
