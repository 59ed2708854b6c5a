import SoundScreen.Test3.Blocks

/-!
# SoundScreen.Test3.Generations

`main` of `kiss_fft130_jfork1.0.0/test3.cpp` on a file that it has written itself, under another
name: the reader of headers meets what the writer of headers makes.

* `read_header_example_wav`: the header is read as it was meant, the data size as it was patched.
* `second_generation`: half of the blocks are read, each is written twice, and all is silence.
-/

namespace SoundScreen
namespace Test3

open LittleEndian

/-- What the `fread`s of the header take from a file that has a header. -/
def header_of (file : List UInt8) (h : 44 ≤ file.length) : Vector UInt8 44 :=
  ⟨(file.take 44).toArray, by rw [List.size_toArray, List.length_take_of_le h]⟩

/-- `main` on a file: its header, then the blocks of what follows. -/
def main_file (fft : Fft) (signed : Bool) (memory : Nat → UInt8) (file : List UInt8)
    (h : 44 ≤ file.length) (c : Char) : Except Fault (List (Fin SAMPLES → Int)) :=
  main_blocks fft signed memory (read_header (header_of file h)) (file.drop 44) c

/-! ## The header -/

theorem extract_header_of {file : List UInt8} (h : 44 ≤ file.length) {start size : Nat}
    (hend : start + size ≤ 44) :
    (header_of file h).toList.extract start (start + size) = (file.drop start).take size := by
  change (file.take 44).extract start (start + size) = _
  rw [List.extract_eq_take_drop, List.drop_take, List.take_take, Nat.add_sub_cancel_left,
    Nat.min_eq_left (by omega)]

section File

variable (t : SizeT) (blocks : List (Fin SAMPLES → Int))

theorem example_wav_header : 44 ≤ (example_wav t blocks).length := by
  rw [example_wav_length]
  have hfour := four_le_sizeof t
  omega

/-- Between the two sizes the header is as it was written first. -/
theorem example_wav_format {start size : Nat} (hstart : 8 ≤ start) (hend : start + size ≤ 40) :
    ((example_wav t blocks).drop start).take size = (header_bytes.drop start).take size := by
  have hsizes : (header_bytes.take 4 ++ bytes 4 (36 + blocks.length * 2048)).length = 8 := by
    rw [List.length_append, List.length_take_of_le (by rw [header_bytes_length]; omega),
      bytes_length]
  have hformat : ((header_bytes.take 40).drop 8).length = 32 := by
    rw [List.length_drop, List.length_take_of_le (by rw [header_bytes_length]; omega)]
  obtain ⟨k, rfl⟩ : ∃ k, start = 8 + k := ⟨start - 8, by omega⟩
  rw [example_wav_eq, List.append_assoc, List.append_assoc, ← List.drop_drop,
    List.drop_left' hsizes, List.drop_append_of_le_length (by omega),
    List.take_append_of_le_length (by rw [List.length_drop, hformat]; omega), List.drop_drop,
    List.drop_take, List.take_take, Nat.min_eq_left (by omega)]

theorem read_header_example_wav : read_header (header_of _ (example_wav_header t blocks)) =
    ⟨1, 2, 16, UInt32.ofNat (16 + blocks.length * 2048)⟩ := by
  have hfield : ∀ start, 8 ≤ start → start + 2 ≤ 40 →
      number (header_of _ (example_wav_header t blocks)) start 2 =
        UInt32.ofNat (word ((header_bytes.drop start).take 2)) := by
    intro start hstart hend
    rw [number, extract_header_of _ (by omega), example_wav_format t blocks hstart hend]
  have hdata : number (header_of _ (example_wav_header t blocks)) 40 4 =
      UInt32.ofNat (16 + blocks.length * 2048) := by
    rw [number, extract_header_of _ (by omega), data_size_field]
    refine UInt32.toNat_inj.mp ?_
    rw [UInt32.toNat_ofNat', UInt32.toNat_ofNat']
    exact Nat.mod_mod _ _
  have hformat : word ((header_bytes.drop 20).take 2) = 1 := by decide +kernel
  have hchannels : word ((header_bytes.drop 22).take 2) = 2 := by decide +kernel
  have hbits : word ((header_bytes.drop 34).take 2) = 16 := by decide +kernel
  rw [read_header, hfield 20 (by omega) (by omega), hfield 22 (by omega) (by omega),
    hfield 34 (by omega) (by omega), hdata, hformat, hchannels, hbits]
  rfl

/-! ## The data -/

variable {blocks}

/-- The bytes in even places stay zero under the upper half of an 8-byte data size. -/
theorem example_wav_even (heven : ∀ k, (sample_bytes blocks).getD (2 * k) 0 = 0)
    (hlt : blocks.length < 2 ^ 18) (k : Nat) :
    ((example_wav t blocks).drop 44).getD (2 * k) 0 = 0 := by
  have hsizes : (header_bytes.take 4 ++ bytes 4 (36 + blocks.length * 2048) ++
      (header_bytes.take 40).drop 8).length = 40 := by
    simp [header_bytes_length]
  have hdrop : (example_wav t blocks).drop 44 =
      (bytes t.sizeof (16 + blocks.length * 2048)).drop 4 ++
        (sample_bytes blocks).drop (t.sizeof - 4) := by
    rw [example_wav_eq, List.append_assoc, show 44 = 40 + 4 from rfl, ← List.drop_drop,
      List.drop_left' hsizes,
      List.drop_append_of_le_length (by rw [bytes_length]; exact four_le_sizeof t)]
  rw [hdrop]
  cases t with
  | four => exact heven k
  | eight =>
    have hupper : (bytes 8 (16 + blocks.length * 2048)).drop 4 = [0, 0, 0, 0] := by
      have hzero : (16 + blocks.length * 2048) / 256 / 256 / 256 / 256 = 0 := by omega
      simp only [bytes, List.drop_succ_cons, List.drop_zero, hzero]
      rfl
    simp only [SizeT.sizeof, hupper, List.getD_eq_getElem?_getD] at heven ⊢
    cases k with
    | zero => rfl
    | succ k =>
      cases k with
      | zero => rfl
      | succ k =>
        have hplace := heven (k + 2)
        rw [List.getElem?_append_right (by simp only [List.length_cons, List.length_nil]; omega),
          List.getElem?_drop]
        simp only [List.length_cons, List.length_nil]
        rwa [show 8 - 4 + (2 * (k + 1 + 1) - (0 + 1 + 1 + 1 + 1)) = 2 * (k + 2) by omega]

end File

/-! ## Both runs -/

section Runs

variable {fft : Fft} {signed : Bool} {memory : Nat → UInt8} {c : Char}
  {blocks : List (Fin SAMPLES → Int)}

theorem blocks_lt {file : PcmFile} (hc : c = 'Y' ∨ c = 'y')
    (hrun : main_blocks fft signed memory (read_header file.header) file.data c = .ok blocks) :
    blocks.length < 2 ^ 18 := by
  rw [main_blocks_eq fft signed memory file hc] at hrun
  rw [← Except.ok.inj hrun, block_loop_length]
  exact (Nat.div_mul_le_self _ _).trans_lt (Nat.mod_lt _ (by decide))

/-- The data size promises 16 bytes too many, less than a block; two channels halve the turns. -/
theorem main_file_example_wav (t : SizeT) (hc : c = 'Y' ∨ c = 'y') (hlt : blocks.length < 2 ^ 18) :
    main_file fft signed memory (example_wav t blocks) (example_wav_header t blocks) c =
      .ok (block_loop fft signed 2 2 (blocks.length / 2)
        (Stream.opened ((example_wav t blocks).drop 44)) memory) := by
  have hnarrow := read_header_narrow (header_of _ (example_wav_header t blocks))
  have hsize : (UInt32.ofNat (16 + blocks.length * 2048)).toNat = 16 + blocks.length * 2048 :=
    UInt32.toNat_ofNat_of_lt' (Nat.lt_of_lt_of_le (by omega) (Nat.le_refl (2 ^ 32)))
  rw [main_file, main_blocks, pcm_sizes_eq hnarrow, read_header_example_wav]
  have hframe : (HEADER.mk 1 2 16 (UInt32.ofNat (16 + blocks.length * 2048))).frame = 32 := rfl
  have hpcm : (HEADER.mk 1 2 16 (UInt32.ofNat (16 + blocks.length * 2048))).IsPcm c :=
    ⟨rfl, hc, hframe ▸ ⟨2, rfl⟩⟩
  have hturns : ∀ n < 2 ^ 18, 8 * (16 + n * 2048) % 2 ^ 32 / 32 / SAMPLES = n / 2 := by
    intro n hn
    simp only [SAMPLES]
    omega
  have htwo : (2 : UInt32).toNat = 2 := rfl
  rw [hframe, if_neg (by decide), if_pos hpcm, hsize, hturns _ hlt]
  simp only [htwo, bind, Except.bind]
  rfl

/-- Blocks of data with zeros in the even places. -/
theorem blocks_silent (hfft : fft.Unscaled) {data : List UInt8}
    (heven : ∀ k, data.getD (2 * k) 0 = 0) {channels turns : Nat}
    (hlength : turns * (2 * SAMPLES) ≤ data.length) :
    ∀ b ∈ sample_bytes (block_loop fft signed channels 2 turns (Stream.opened data) memory),
      b = 0 := by
  have hrest : (Stream.opened data).rest = data.drop (0 * (2 * SAMPLES)) := by
    rw [Nat.zero_mul]
    rfl
  have hturns : (0 + turns) * (2 * SAMPLES) ≤ data.length := by rwa [Nat.zero_add]
  intro b hb
  rw [sample_bytes_eq] at hb
  obtain ⟨v, hv, hb⟩ := List.mem_flatMap.mp hb
  obtain ⟨block, hblock, hv⟩ := List.mem_flatMap.mp hv
  obtain ⟨n, -, rfl⟩ := List.mem_map.mp hv
  have hfrom := fromEven_block_loop hfft data turns 0 hturns hrest memory block hblock n
  rw [fromEven_zero heven hfrom] at hb
  simpa using hb

/-- **The second generation.** What `main` has written for any file of 16-bit samples, with either
`size_t`, it reads as 16-bit stereo; it takes half of the blocks, writes each twice, and every byte
of the samples is zero. -/
theorem second_generation (hfft : fft.Unscaled) {file : PcmFile} (hc : c = 'Y' ∨ c = 'y')
    (hrun : main_blocks fft signed memory (read_header file.header) file.data c = .ok blocks)
    (t : SizeT) :
    read_header (header_of _ (example_wav_header t blocks)) =
      ⟨1, 2, 16, UInt32.ofNat (16 + blocks.length * 2048)⟩ ∧
    ∃ again, main_file fft signed memory (example_wav t blocks) (example_wav_header t blocks) c =
        .ok again ∧
      again.length = blocks.length / 2 * 2 ∧ ∀ b ∈ sample_bytes again, b = 0 := by
  have hlt := blocks_lt hc hrun
  refine ⟨read_header_example_wav t blocks, _, main_file_example_wav t hc hlt,
    block_loop_length _ _ _ _, ?_⟩
  have heven := example_wav_even t (sample_bytes_even hfft hc hrun) hlt
  have hlength : (blocks.length / 2) * (2 * SAMPLES) ≤ ((example_wav t blocks).drop 44).length := by
    rw [List.length_drop, example_wav_length]
    simp only [SAMPLES]
    cases t with
    | four =>
      simp only [SizeT.sizeof]
      omega
    | eight =>
      simp only [SizeT.sizeof]
      omega
  exact blocks_silent hfft heven hlength

/-- A header of 16-bit samples, mono, with 4096 bytes of data, and two blocks of ones. -/
def two_blocks : PcmFile where
  header :=
    #v[82, 73, 70, 70, 0x24, 16, 0, 0, 87, 65, 86, 69, 102, 109, 116, 32, 16, 0, 0, 0, 1, 0, 1, 0,
      0x80, 0x3e, 0, 0, 0, 0x7d, 0, 0, 2, 0, 16, 0, 100, 97, 116, 97, 0, 16, 0, 0]
  data := List.replicate 4096 1
  blocks := 2
  format_type := by decide +kernel
  channels := .inl (by decide +kernel)
  bits_per_sample := by decide +kernel
  data_size := by
    rw [List.length_replicate]
    decide +kernel
  whole := List.length_replicate

theorem second_generation_two_blocks : ∃ blocks again,
    main_blocks pairs true (fun _ => 0) (read_header two_blocks.header) two_blocks.data 'y' =
      .ok blocks ∧
    main_file pairs true (fun _ => 0) (example_wav .eight blocks) (example_wav_header .eight blocks)
      'y' = .ok again ∧
    again.length = 2 ∧ ∀ b ∈ sample_bytes again, b = 0 := by
  have hrun := main_blocks_eq pairs true (fun _ => 0) two_blocks (.inr rfl)
  obtain ⟨-, again, hagain, hlength, hzero⟩ :=
    second_generation pairs_unscaled (.inr rfl) hrun .eight
  have htwo := (blocks_length (.inr rfl) hrun).mpr ⟨by decide, .inr rfl⟩
  rw [htwo] at hlength
  exact ⟨_, again, hrun, hagain, hlength, hzero⟩

end Runs

end Test3
end SoundScreen
