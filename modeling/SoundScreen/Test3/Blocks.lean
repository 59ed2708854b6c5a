import SoundScreen.Lib.Loop
import SoundScreen.Numpy
import SoundScreen.Test3.Header

/-!
# SoundScreen.Test3.Blocks

The loop over the blocks of `kiss_fft130_jfork1.0.0/test3.cpp`: a block of bytes is read, decoded,
transformed and transformed back, once for each channel, and written. Floating-point numbers are
rational numbers, the two transforms are parameters, and `char` has a sign or not.

* `word_bytes_scaled`: a sample that is written has lost its low byte.
* `fromEven_turn`: what is written for a block comes from its bytes in even places.
* `survives_iff`: when the samples written are the samples read.
-/

namespace SoundScreen
namespace Test3

/-- `kiss_fft_cpx`. -/
structure Cpx where
  r : ℚ
  i : ℚ

/-- `kiss_fftr` and `kiss_fftri` on `SAMPLES` numbers. -/
structure Fft where
  kiss_fftr : (Fin SAMPLES → ℚ) → Fin (SAMPLES / 2 + 1) → Cpx
  kiss_fftri : (Fin (SAMPLES / 2 + 1) → Cpx) → Fin SAMPLES → ℚ

/-- There is no scaling: the transform back gives `SAMPLES` times the numbers. -/
def Fft.Unscaled (fft : Fft) : Prop :=
  ∀ x n, fft.kiss_fftri (fft.kiss_fftr x) n = SAMPLES * x n

/-! ## The source -/

/-- A `char` as an `int`. -/
def promote (signed : Bool) (b : UInt8) : BitVec 32 :=
  if signed then b.toBitVec.signExtend 32 else b.toBitVec.setWidth 32

/-- What `data_in_channel[a]` becomes; `d` is what it is. -/
def decode (signed : Bool) (bytes_in_each_channel : Nat) (data_buffer : Nat → UInt8) (a : Nat)
    (d : Int) : Int :=
  let byte i := promote signed (data_buffer i)
  if bytes_in_each_channel = 4 then
    (byte 0 ||| byte 1 <<< 8 ||| byte 2 <<< 16 ||| byte 3 <<< 24).toInt
  else if bytes_in_each_channel = 2 then
    (byte (a + 0) ||| byte (a + 1) <<< 8).toInt
  else if bytes_in_each_channel = 1 then
    (byte 0).toInt
  else
    d

/-- `for (int a = 0; a < read; a = a+2)`. -/
def decode_block (signed : Bool) (bytes_in_each_channel read : Nat) (data_buffer : Nat → UInt8)
    (data_in_channel : Fin SAMPLES → Int) : Fin SAMPLES → Int :=
  (List.range ((read + 1) / 2)).foldl (fun d k =>
    if h : 2 * k < SAMPLES then
      Function.update d ⟨2 * k, h⟩
        (decode signed bytes_in_each_channel data_buffer (2 * k) (d ⟨2 * k, h⟩))
    else d) data_in_channel

/-- `TestFftReal` both ways, and the numbers as they are written. -/
def transform (fft : Fft) (data_in_channel : Fin SAMPLES → Int) : Fin SAMPLES → Int :=
  let out := fft.kiss_fftr fun b => data_in_channel b
  let inverse_out := fft.kiss_fftri out
  fun n => truncate (inverse_out n)

/-- The loop over `xchannels`: what is written for each channel. -/
def channel_loop (fft : Fft) (decode_block : (Fin SAMPLES → Int) → Fin SAMPLES → Int) :
    Nat → (Fin SAMPLES → Int) → List (Fin SAMPLES → Int)
  | 0, _ => []
  | channels + 1, data_in_channel =>
    let data_in_channel := decode_block data_in_channel
    transform fft data_in_channel :: channel_loop fft decode_block channels data_in_channel

/-- The loop over `i`. `fread` does not return more than `SAMPLES`, so there is no error branch. -/
def block_loop (fft : Fft) (signed : Bool) (channels bytes_in_each_channel : Nat) :
    Nat → Stream → (Nat → UInt8) → List (Fin SAMPLES → Int)
  | 0, _, _ => []
  | turns + 1, ptr, data_buffer =>
    let (bytes, ptr) := ptr.fread (2 * SAMPLES)
    let data_buffer := fun i => bytes.getD i (data_buffer i)
    let read := bytes.length / 2
    channel_loop fft (decode_block signed bytes_in_each_channel read data_buffer) channels
        (fun _ => 0) ++
      block_loop fft signed channels bytes_in_each_channel turns ptr data_buffer

/-- What is streamed into `example.wav` as samples; `data` is what follows the header, and
`memory` what is in `data_buffer` before. -/
def main_blocks (fft : Fft) (signed : Bool) (memory : Nat → UInt8) (header : HEADER)
    (data : List UInt8) (c : Char) : Except Fault (List (Fin SAMPLES → Int)) := do
  match ← pcm_sizes header c with
  | (_, none) => return []
  | (_, some loop) =>
    return block_loop fft signed header.channels.toNat loop.bytes_in_each_channel loop.turns
      (Stream.opened data) memory

/-! ## One block -/

/-- What two bytes are decoded to. -/
def sample (signed : Bool) (data_buffer : Nat → UInt8) (a : Nat) : Int :=
  (promote signed (data_buffer a) ||| promote signed (data_buffer (a + 1)) <<< 8).toInt

theorem setWidth_promote (signed : Bool) (b : UInt8) :
    (promote signed b).setWidth 8 = b.toBitVec := by
  unfold promote
  cases signed with
  | false => simp
  | true =>
    ext i hi
    have hi' : i < 32 := by omega
    simp [BitVec.getElem_signExtend, hi, hi']

theorem sample_emod (signed : Bool) (data_buffer : Nat → UInt8) (a : Nat) :
    sample signed data_buffer a % 256 = (data_buffer a).toNat := by
  have hlow : (promote signed (data_buffer a) |||
      promote signed (data_buffer (a + 1)) <<< 8).setWidth 8 = (data_buffer a).toBitVec := by
    rw [BitVec.setWidth_or, setWidth_promote]
    ext i hi
    simp
  have htoNat := congrArg BitVec.toNat hlow
  rw [BitVec.toNat_setWidth] at htoNat
  have hint : ∀ x : BitVec 32, x.toInt % 256 = ((x.toNat % 2 ^ 8 : Nat) : Int) := by
    intro x
    rw [BitVec.toInt_eq_toNat_cond]
    split
    · omega
    · omega
  rw [sample, hint, htoNat]
  rfl

/-- The low byte is lost, and of the high byte only the low byte of the sample is left. -/
theorem word_bytes_scaled {v : Int} {b : UInt8} (h : v % 256 = b.toNat) :
    word_bytes (SAMPLES * v) 2 = [0, 4 * b] := by
  have hlow : low_byte (SAMPLES * v) = 0 := by
    have hmod : (SAMPLES * v : Int) % 256 = 0 := by
      simp only [SAMPLES]
      omega
    rw [low_byte, hmod]
    rfl
  have hhigh : low_byte ((SAMPLES * v : Int).shiftRight 8) = 4 * b := by
    have hshift : (SAMPLES * v : Int).shiftRight 8 = 4 * v := by
      rw [shiftRight_eight]
      simp only [SAMPLES]
      omega
    refine UInt8.toNat_inj.mp ?_
    have hfour : (4 : UInt8).toNat = 4 := rfl
    rw [hshift, low_byte, UInt8.toNat_ofNat', UInt8.toNat_mul, hfour]
    omega
  rw [word_bytes, word_bytes, word_bytes, hlow, hhigh]

/-- What `data_in_channel` is after `m` turns of the loop over `a`. -/
def decoded (signed : Bool) (data_buffer : Nat → UInt8) (d : Fin SAMPLES → Int) (m : Nat) :
    Fin SAMPLES → Int :=
  fun n => if n.val % 2 = 0 ∧ n.val < 2 * m then sample signed data_buffer n.val else d n

theorem decoded_succ (signed : Bool) (data_buffer : Nat → UInt8) (d : Fin SAMPLES → Int) {m : Nat}
    (h : 2 * m < SAMPLES) :
    Function.update (decoded signed data_buffer d m) ⟨2 * m, h⟩
        (sample signed data_buffer (2 * m)) = decoded signed data_buffer d (m + 1) := by
  funext n
  by_cases hn : n = ⟨2 * m, h⟩
  · subst hn
    rw [Function.update_self, decoded, if_pos ⟨Nat.mul_mod_right 2 m, by simp⟩]
  · have hne : n.val ≠ 2 * m := fun hval => hn (Fin.ext hval)
    have hiff : (n.val % 2 = 0 ∧ n.val < 2 * m) ↔ n.val % 2 = 0 ∧ n.val < 2 * (m + 1) := by
      omega
    simp only [Function.update_of_ne hn, decoded, hiff]

theorem decode_block_eq (signed : Bool) (data_buffer : Nat → UInt8) (d : Fin SAMPLES → Int) :
    decode_block signed 2 SAMPLES data_buffer d =
      fun n : Fin SAMPLES => if n.val % 2 = 0 then sample signed data_buffer n.val else d n := by
  have hfirst : decoded signed data_buffer d 0 = d := by
    funext n
    exact if_neg fun hn => Nat.not_lt_zero _ hn.2
  have hloop : decode_block signed 2 SAMPLES data_buffer (decoded signed data_buffer d 0) =
      decoded signed data_buffer d 512 := by
    refine Loop.foldl_range_eq (decoded signed data_buffer d) ?_
    intro k hk
    have hlt : 2 * k < SAMPLES := by
      simp only [SAMPLES] at hk ⊢
      omega
    rw [dif_pos hlt]
    exact decoded_succ signed data_buffer d hlt
  rw [hfirst] at hloop
  rw [hloop]
  funext n
  have hiff : (n.val % 2 = 0 ∧ n.val < 2 * 512) ↔ n.val % 2 = 0 := by
    have hn : n.val < 1024 := n.isLt
    omega
  simp only [decoded, hiff]

theorem transform_eq {fft : Fft} (h : fft.Unscaled) (d : Fin SAMPLES → Int) :
    transform fft d = fun n => SAMPLES * d n := by
  funext n
  have hcast : fft.kiss_fftri (fft.kiss_fftr fun b => (d b : ℚ)) n =
      ((SAMPLES * d n : Int) : ℚ) := by
    rw [h]
    push_cast
    rfl
  simp only [transform, hcast, truncate_intCast]

/-! ## All blocks -/

section Loop

variable {fft : Fft} {signed : Bool} {channels : Nat}

theorem channel_loop_eq (h : fft.Unscaled) (data_buffer : Nat → UInt8) (d : Fin SAMPLES → Int) :
    channel_loop fft (decode_block signed 2 SAMPLES data_buffer) channels d =
      List.replicate channels fun n : Fin SAMPLES => SAMPLES *
        if n.val % 2 = 0 then sample signed data_buffer n.val else d n := by
  induction channels generalizing d with
  | zero => rfl
  | succ channels ih =>
    rw [channel_loop, ih, transform_eq h, decode_block_eq, List.replicate_succ]
    congr 2
    funext n
    by_cases hn : n.val % 2 = 0
    · simp only [hn, if_true]
    · simp only [hn, if_false]

/-- A sample as it is written: its low byte is 0, and its high byte comes from a byte of the data
in an even place. -/
def FromEven (data : List UInt8) (v : Int) : Prop :=
  ∃ b, word_bytes v 2 = [0, b] ∧ (b = 0 ∨ ∃ k, b = 4 * data.getD (2 * k) 0)

theorem fromEven_turn (data : List UInt8) (data_buffer : Nat → UInt8) (start : Nat)
    (hbuffer : ∀ a < SAMPLES, data_buffer a = data.getD (2 * start + a) 0) (n : Fin SAMPLES) :
    FromEven data (SAMPLES * if n.val % 2 = 0 then sample signed data_buffer n.val else 0) := by
  by_cases hn : n.val % 2 = 0
  · rw [if_pos hn]
    refine ⟨_, word_bytes_scaled (sample_emod signed data_buffer n.val), .inr ?_⟩
    refine ⟨start + n.val / 2, ?_⟩
    rw [hbuffer n.val n.isLt, show 2 * start + n.val = 2 * (start + n.val / 2) by omega]
  · rw [if_neg hn]
    exact ⟨0, rfl, .inl rfl⟩

theorem block_loop_length (turns : Nat) (ptr : Stream) (data_buffer : Nat → UInt8)
    (bytes_in_each_channel : Nat) :
    (block_loop fft signed channels bytes_in_each_channel turns ptr data_buffer).length =
      turns * channels := by
  have hchannel : ∀ (f : (Fin SAMPLES → Int) → Fin SAMPLES → Int) (channels : Nat) d,
      (channel_loop fft f channels d).length = channels := by
    intro f channels
    induction channels with
    | zero => exact fun d => rfl
    | succ channels ih =>
      intro d
      rw [channel_loop, List.length_cons, ih]
  induction turns generalizing ptr data_buffer with
  | zero => exact (Nat.zero_mul _).symm
  | succ turns ih =>
    simp only [block_loop, List.length_append, hchannel, ih]
    rw [Nat.succ_mul, Nat.add_comm]

theorem fromEven_block_loop (h : fft.Unscaled) (data : List UInt8) (turns i : Nat)
    (hle : (i + turns) * (2 * SAMPLES) ≤ data.length) {ptr : Stream}
    (hptr : ptr.rest = data.drop (i * (2 * SAMPLES))) (data_buffer : Nat → UInt8) :
    ∀ b ∈ block_loop fft signed channels 2 turns ptr data_buffer, ∀ n, FromEven data (b n) := by
  induction turns generalizing i ptr data_buffer with
  | zero =>
    intro b hb
    cases hb
  | succ turns ih =>
    have hblock : i * (2 * SAMPLES) + 2 * SAMPLES ≤ data.length := by
      refine Nat.le_trans ?_ hle
      rw [← Nat.succ_mul]
      exact Nat.mul_le_mul_right _ (by omega)
    have hread : (ptr.fread (2 * SAMPLES)).1.length = 2 * SAMPLES := by
      rw [Stream.fread_bytes, hptr, List.length_take, List.length_drop]
      omega
    have hbyte : ∀ a < SAMPLES, (ptr.fread (2 * SAMPLES)).1.getD a (data_buffer a) =
        data.getD (2 * (i * SAMPLES) + a) 0 := by
      intro a ha
      have hin : i * (2 * SAMPLES) + a < data.length := by omega
      have hplace : i * (2 * SAMPLES) + a = 2 * (i * SAMPLES) + a := by
        rw [Nat.mul_left_comm]
      rw [Stream.fread_bytes, hptr, List.getD_eq_getElem?_getD, List.getElem?_take_of_lt (by omega),
        List.getElem?_drop, ← hplace, List.getD_eq_getElem?_getD, List.getElem?_eq_getElem hin,
        Option.getD_some, Option.getD_some]
    intro b hb n
    rw [block_loop, List.mem_append] at hb
    rcases hb with hb | hb
    · rw [hread, show 2 * SAMPLES / 2 = SAMPLES from rfl, channel_loop_eq h,
        List.mem_replicate] at hb
      rw [hb.2]
      exact fromEven_turn data _ (i * SAMPLES) hbyte n
    · have hturns : i + 1 + turns = i + (turns + 1) := by omega
      refine ih (i + 1) (hturns ▸ hle) ?_ _ b hb n
      rw [Stream.fread_rest, hptr, List.drop_drop]
      exact congrArg (List.drop · data) (Nat.succ_mul i (2 * SAMPLES)).symm

end Loop

/-! ## The samples -/

/-- A file of 16-bit PCM samples, mono or stereo, that are a whole number of blocks. Its byte rate,
which divides where the duration is printed, is taken not to be 0. -/
structure PcmFile where
  header : Vector UInt8 44
  data : List UInt8
  blocks : Nat
  format_type : (read_header header).format_type = 1
  channels : (read_header header).channels = 1 ∨ (read_header header).channels = 2
  bits_per_sample : (read_header header).bits_per_sample = 16
  data_size : (read_header header).data_size.toNat = data.length
  whole : data.length = blocks * (2 * SAMPLES)

/-- The bytes of the samples that are written are those of the samples that are read. These are the
samples as the blocks are written, before the sizes are patched into the file (`example_wav`). -/
def Survives (fft : Fft) (signed : Bool) (memory : Nat → UInt8) (file : PcmFile) (c : Char) :
    Prop :=
  ∃ blocks, main_blocks fft signed memory (read_header file.header) file.data c = .ok blocks ∧
    sample_bytes blocks = file.data

theorem PcmFile.channels_toNat (file : PcmFile) :
    (read_header file.header).channels.toNat = 1 ∨
      (read_header file.header).channels.toNat = 2 :=
  file.channels.imp (congrArg UInt32.toNat) (congrArg UInt32.toNat)

theorem PcmFile.frame_eq (file : PcmFile) :
    (read_header file.header).frame = (read_header file.header).channels.toNat * 16 := by
  rw [HEADER.frame, file.bits_per_sample]
  rfl

theorem PcmFile.isPcm (file : PcmFile) {c : Char} (hc : c = 'Y' ∨ c = 'y') :
    (read_header file.header).IsPcm c := by
  refine ⟨file.format_type, hc, ?_⟩
  rw [file.frame_eq]
  rcases file.channels_toNat with hn | hn
  · rw [hn]
    exact ⟨2, rfl⟩
  · rw [hn]
    exact ⟨2, rfl⟩

/-- As many turns as blocks, modulo `2 ^ 18`, and half as many for stereo. -/
theorem PcmFile.turns_eq (file : PcmFile) :
    8 * (read_header file.header).data_size.toNat % 2 ^ 32 / (read_header file.header).frame /
        SAMPLES = file.blocks % 2 ^ 18 / (read_header file.header).channels.toNat := by
  have hsize : (read_header file.header).data_size.toNat = file.blocks * (2 * 1024) :=
    file.data_size.trans file.whole
  rw [file.frame_eq, hsize]
  simp only [SAMPLES]
  rcases file.channels_toNat with hn | hn
  · rw [hn]
    omega
  · rw [hn]
    omega

theorem main_blocks_eq (fft : Fft) (signed : Bool) (memory : Nat → UInt8) (file : PcmFile)
    {c : Char} (hc : c = 'Y' ∨ c = 'y') :
    main_blocks fft signed memory (read_header file.header) file.data c =
      .ok (block_loop fft signed (read_header file.header).channels.toNat 2
        (file.blocks % 2 ^ 18 / (read_header file.header).channels.toNat)
        (Stream.opened file.data) memory) := by
  have hframe : (read_header file.header).frame ≠ 0 := by
    rw [file.frame_eq]
    rcases file.channels_toNat with hn | hn
    · omega
    · omega
  have hsample : (read_header file.header).frame / 8 /
      (read_header file.header).channels.toNat = 2 := by
    rw [file.frame_eq]
    rcases file.channels_toNat with hn | hn
    · rw [hn]
    · rw [hn]
  rw [main_blocks, pcm_sizes_eq (read_header_narrow file.header), if_neg hframe,
    if_pos (file.isPcm hc), hsample, file.turns_eq]
  rfl

theorem sample_bytes_eq (blocks : List (Fin SAMPLES → Int)) :
    sample_bytes blocks =
      (blocks.flatMap fun b => (List.finRange SAMPLES).map b).flatMap fun v => word_bytes v 2 := by
  rw [List.flatMap_assoc]
  refine congrArg (List.flatMap · blocks) ?_
  funext b
  rw [List.flatMap_map]

theorem getD_even {α : Type} {f : α → List UInt8} {l : List α} (h : ∀ a ∈ l, ∃ b, f a = [0, b])
    (k : Nat) : (l.flatMap f).getD (2 * k) 0 = 0 := by
  induction l generalizing k with
  | nil => rfl
  | cons a l ih =>
    obtain ⟨b, hb⟩ := h a List.mem_cons_self
    rw [List.flatMap_cons, hb]
    cases k with
    | zero => rfl
    | succ k =>
      rw [Nat.mul_succ]
      exact ih (fun a ha => h a (List.mem_cons_of_mem _ ha)) k

theorem fromEven_zero {data : List UInt8} (h : ∀ k, data.getD (2 * k) 0 = 0) {v : Int}
    (hv : FromEven data v) : word_bytes v 2 = [0, 0] := by
  obtain ⟨b, hword, hb⟩ := hv
  rw [hword]
  rcases hb with rfl | ⟨k, rfl⟩
  · rfl
  · rw [h k]
    rfl

section Run

variable {fft : Fft} {signed : Bool} {memory : Nat → UInt8} {file : PcmFile} {c : Char}
  {blocks : List (Fin SAMPLES → Int)}

theorem blocks_length (hc : c = 'Y' ∨ c = 'y')
    (hrun : main_blocks fft signed memory (read_header file.header) file.data c = .ok blocks) :
    blocks.length = file.blocks ↔ file.blocks < 2 ^ 18 ∧
      ((read_header file.header).channels = 1 ∨ file.blocks % 2 = 0) := by
  rw [main_blocks_eq fft signed memory file hc] at hrun
  rw [← Except.ok.inj hrun, block_loop_length]
  rcases file.channels with hch | hch
  · have hone : (1 : UInt32).toNat = 1 := rfl
    rw [hch, hone, eq_self_iff_true, true_or, and_true]
    omega
  · have htwo : (2 : UInt32).toNat = 2 := rfl
    have hne : (2 : UInt32) ≠ 1 := by decide
    rw [hch, htwo, or_iff_right hne]
    omega

theorem fromEven_samples (hfft : fft.Unscaled) (hc : c = 'Y' ∨ c = 'y')
    (hrun : main_blocks fft signed memory (read_header file.header) file.data c = .ok blocks) :
    ∀ v ∈ blocks.flatMap fun b => (List.finRange SAMPLES).map b, FromEven file.data v := by
  intro v hv
  obtain ⟨b, hb, hv⟩ := List.mem_flatMap.mp hv
  obtain ⟨n, -, rfl⟩ := List.mem_map.mp hv
  rw [main_blocks_eq fft signed memory file hc] at hrun
  rw [← Except.ok.inj hrun] at hb
  refine fromEven_block_loop hfft file.data _ 0 ?_ ?_ memory b hb n
  · rw [file.whole, Nat.zero_add]
    exact Nat.mul_le_mul_right _ ((Nat.div_le_self _ _).trans (Nat.mod_le _ _))
  · rw [Nat.zero_mul]
    rfl

theorem sample_bytes_even (hfft : fft.Unscaled) (hc : c = 'Y' ∨ c = 'y')
    (hrun : main_blocks fft signed memory (read_header file.header) file.data c = .ok blocks)
    (k : Nat) : (sample_bytes blocks).getD (2 * k) 0 = 0 := by
  rw [sample_bytes_eq]
  refine getD_even (fun v hv => ?_) k
  obtain ⟨b, hword, -⟩ := fromEven_samples hfft hc hrun v hv
  exact ⟨b, hword⟩

theorem sample_bytes_zero (hfft : fft.Unscaled) (hc : c = 'Y' ∨ c = 'y')
    (hrun : main_blocks fft signed memory (read_header file.header) file.data c = .ok blocks)
    (h : ∀ k, file.data.getD (2 * k) 0 = 0) : ∀ b ∈ sample_bytes blocks, b = 0 := by
  intro b hb
  rw [sample_bytes_eq] at hb
  obtain ⟨v, hv, hb⟩ := List.mem_flatMap.mp hb
  rw [fromEven_zero h (fromEven_samples hfft hc hrun v hv)] at hb
  simpa using hb

end Run

/-- **The samples in `example.wav`.** For every such file, and with either `char`: they are those
of the input exactly if these are all zero, and there are fewer than `2 ^ 18` blocks, in pairs for
stereo. -/
theorem survives_iff {fft : Fft} (hfft : fft.Unscaled) (signed : Bool) (memory : Nat → UInt8)
    (file : PcmFile) {c : Char} (hc : c = 'Y' ∨ c = 'y') :
    Survives fft signed memory file c ↔
      (∀ b ∈ file.data, b = 0) ∧ file.blocks < 2 ^ 18 ∧
        ((read_header file.header).channels = 1 ∨ file.blocks % 2 = 0) := by
  constructor
  · rintro ⟨blocks, hrun, hsame⟩
    rw [← blocks_length hc hrun]
    refine ⟨?_, ?_⟩
    · have heven : ∀ k, file.data.getD (2 * k) 0 = 0 := by
        intro k
        rw [← hsame]
        exact sample_bytes_even hfft hc hrun k
      rw [← hsame]
      exact sample_bytes_zero hfft hc hrun heven
    · have hlength := congrArg List.length hsame
      rw [sample_bytes_length, file.whole] at hlength
      exact Nat.eq_of_mul_eq_mul_right (by decide) hlength
  · rintro ⟨hall, hnumber⟩
    have hrun := main_blocks_eq fft signed memory file hc
    have heven : ∀ k, file.data.getD (2 * k) 0 = 0 := by
      intro k
      rw [List.getD_eq_getElem?_getD]
      cases hk : file.data[2 * k]? with
      | none => rfl
      | some b => exact hall b (List.mem_of_getElem? hk)
    have hread : file.data = List.replicate (file.blocks * 2048) 0 := by
      rw [List.eq_replicate_of_mem hall, file.whole]
      rfl
    refine ⟨_, hrun, ?_⟩
    rw [List.eq_replicate_of_mem (sample_bytes_zero hfft hc hrun heven), sample_bytes_length,
      (blocks_length hc hrun).mpr hnumber]
    exact hread.symm

/-- A transform that keeps the numbers in pairs. -/
def pairs : Fft where
  kiss_fftr x k :=
    if h : 2 * k.val + 1 < SAMPLES then ⟨x ⟨2 * k.val, by omega⟩, x ⟨2 * k.val + 1, h⟩⟩
    else ⟨0, 0⟩
  kiss_fftri s n :=
    SAMPLES * if n.val % 2 = 0 then (s ⟨n.val / 2, by omega⟩).r else (s ⟨n.val / 2, by omega⟩).i

theorem pairs_unscaled : pairs.Unscaled := by
  intro x n
  have hn : n.val < 1024 := n.isLt
  have hin : 2 * (n.val / 2) + 1 < SAMPLES := by
    simp only [SAMPLES]
    omega
  simp only [pairs, dif_pos hin]
  by_cases heven : n.val % 2 = 0
  · have hplace : 2 * (n.val / 2) = n.val := by omega
    simp only [heven, if_true, hplace]
  · have hplace : 2 * (n.val / 2) + 1 = n.val := by omega
    simp only [heven, if_false, hplace]

/-- A header of 16-bit samples, mono, with 2048 bytes of data. -/
def mono_16_bit : Vector UInt8 44 :=
  #v[82, 73, 70, 70, 0x24, 8, 0, 0, 87, 65, 86, 69, 102, 109, 116, 32, 16, 0, 0, 0, 1, 0, 1, 0,
    0x80, 0x3e, 0, 0, 0, 0x7d, 0, 0, 2, 0, 16, 0, 100, 97, 116, 97, 0, 8, 0, 0]

/-- One block of zeros but for the low byte of the first sample. -/
def one_block (b : UInt8) : PcmFile where
  header := mono_16_bit
  data := b :: List.replicate 2047 0
  blocks := 1
  format_type := by decide +kernel
  channels := .inl (by decide +kernel)
  bits_per_sample := by decide +kernel
  data_size := by
    rw [List.length_cons, List.length_replicate]
    decide +kernel
  whole := by
    rw [List.length_cons, List.length_replicate]
    rfl

theorem zeros_survive : Survives pairs true (fun _ => 0) (one_block 0) 'y' := by
  rw [survives_iff pairs_unscaled true _ _ (.inr rfl)]
  refine ⟨fun b hb => ?_, by decide, .inl (by decide +kernel)⟩
  rcases List.mem_cons.mp hb with rfl | hb
  · rfl
  · exact List.eq_of_mem_replicate hb

/-- A first sample of 1 is not the one that is written, with either `char`. -/
theorem one_lost : ¬Survives pairs true (fun _ => 0) (one_block 1) 'y' ∧
    ¬Survives pairs false (fun _ => 0) (one_block 1) 'y' := by
  have hlost : ∀ signed, ¬Survives pairs signed (fun _ => 0) (one_block 1) 'y' := by
    rintro signed ⟨blocks, hrun, hsame⟩
    have heven := sample_bytes_even pairs_unscaled (.inr rfl) hrun 0
    rw [hsame] at heven
    exact absurd heven (by decide)
  exact ⟨hlost true, hlost false⟩

end Test3
end SoundScreen
