import Mathlib.Data.BitVec
import SoundScreen.Lib.Blocks
import SoundScreen.Lib.LittleEndian
import SoundScreen.Lib.Stream

/-!
# SoundScreen.Test3.ExampleWav

The file `example.wav` that `kiss_fft130_jfork1.0.0/test3.cpp` writes: the header, the samples of
all blocks, and the two sizes patched into the header at the end.

* `write_word_eq`: a word is written as its bytes, least significant first.
* `example_wav_eq`: the bytes of the file.
* `never_consistent`: its sizes are never those of the file.
-/

namespace SoundScreen
namespace Test3

open LittleEndian

def SAMPLES : Nat := 1024

theorem SAMPLES_pos : 0 < SAMPLES := Nat.succ_pos 1023

/-! ## `little_endian_io` -/

/-- `static_cast <char> (value & 0xFF)`. -/
def low_byte (value : Int) : UInt8 := UInt8.ofNat (value % 256).toNat

def write_word (value : Int) : Nat → Stream → Stream
  | 0, outs => outs
  | size + 1, outs => write_word (value.shiftRight 8) size (outs.write [low_byte value])

theorem shiftRight_eight (value : Int) : value.shiftRight 8 = value / 256 :=
  Int.shiftRight_eq_div_pow value 8

/-- The bytes of a word. -/
def word_bytes (value : Int) : Nat → List UInt8
  | 0 => []
  | size + 1 => low_byte value :: word_bytes (value.shiftRight 8) size

@[simp] theorem word_bytes_length (value : Int) (size : Nat) :
    (word_bytes value size).length = size := by
  induction size generalizing value with
  | zero => rfl
  | succ size ih => rw [word_bytes, List.length_cons, ih]

theorem write_word_eq (value : Int) (size : Nat) {outs : Stream}
    (h : outs.pos ≤ outs.contents.length) :
    write_word value size outs = outs.write (word_bytes value size) := by
  induction size generalizing value outs with
  | zero => exact (Stream.write_nil h).symm
  | succ size ih =>
    rw [write_word, ih _ (Stream.write_pos_le h _), Stream.write_write h]
    rfl

theorem write_word_contents (value : Int) (size : Nat) {contents : List UInt8} {pos : Nat}
    (h : pos ≤ contents.length) :
    (write_word value size ⟨contents, pos⟩).contents =
      contents.take pos ++ word_bytes value size ++ contents.drop (pos + size) := by
  have hle : (Stream.mk contents pos).pos ≤ (Stream.mk contents pos).contents.length := h
  rw [write_word_eq value size hle, Stream.write_of_le hle, word_bytes_length]

theorem word_bytes_natCast (value size : Nat) : word_bytes value size = bytes size value := by
  induction size generalizing value with
  | zero => rfl
  | succ size ih =>
    have hlow : low_byte value = UInt8.ofNat value := by
      refine UInt8.toNat_inj.mp ?_
      simp only [low_byte, UInt8.toNat_ofNat']
      omega
    have hrest : (value : Int).shiftRight 8 = ((value / 256 : Nat) : Int) :=
      shiftRight_eight value
    rw [word_bytes, bytes, hlow, hrest, ih]

/-! ## The file -/

def ascii (text : String) : List UInt8 := text.toList.map fun c => UInt8.ofNat c.toNat

/-- The header as it is written first, and `data_chunk_pos`. -/
def write_header : Stream × Nat :=
  let wav := Stream.opened []
  let wav := wav.write (ascii "RIFF----WAVEfmt ")
  let wav := write_word 16 4 wav
  let wav := write_word 1 2 wav
  let wav := write_word 2 2 wav
  let wav := write_word 16000 4 wav
  let wav := write_word 64000 4 wav
  let wav := write_word 4 2 wav
  let wav := write_word 16 2 wav
  let data_chunk_pos := wav.pos
  (wav.write (ascii "data----"), data_chunk_pos)

/-- The loop over `n`, with the values `(int)inverse_out[n]`. -/
def write_samples (inverse_out : Fin SAMPLES → Int) (wav : Stream) : Stream :=
  (List.finRange SAMPLES).foldl (fun wav n => write_word (inverse_out n) 2 wav) wav

/-- What is streamed before the patching. -/
def streamed (blocks : List (Fin SAMPLES → Int)) : Stream :=
  blocks.foldl (fun wav inverse_out => write_samples inverse_out wav) write_header.1

/-- The `size_t` of the platform. -/
inductive SizeT where
  | four
  | eight
  deriving DecidableEq, Repr

namespace SizeT

def sizeof : SizeT → Nat
  | four => 4
  | eight => 8

/-- Its values. -/
abbrev Value (t : SizeT) : Type := BitVec (8 * t.sizeof)

end SizeT

def fix_sizes (t : SizeT) (data_chunk_pos : t.Value) (wav : Stream) : Stream :=
  let file_length : t.Value := BitVec.ofNat _ wav.pos
  let wav := wav.seek (data_chunk_pos + 4).toNat
  -- the size argument is left out, so it is `sizeof( size_t )`
  let wav := write_word (file_length - data_chunk_pos + 8).toNat t.sizeof wav
  let wav := wav.seek (0 + 4)
  write_word (file_length - 8).toNat 4 wav

/-- `example.wav`. -/
def example_wav (t : SizeT) (blocks : List (Fin SAMPLES → Int)) : List UInt8 :=
  (fix_sizes t (BitVec.ofNat _ write_header.2) (streamed blocks)).contents

/-! ## What is streamed -/

/-- The header as it is written first. -/
def header_bytes : List UInt8 :=
  ascii "RIFF----WAVEfmt " ++ word_bytes 16 4 ++ word_bytes 1 2 ++ word_bytes 2 2 ++
    word_bytes 16000 4 ++ word_bytes 64000 4 ++ word_bytes 4 2 ++ word_bytes 16 2 ++
    ascii "data----"

theorem header_bytes_length : header_bytes.length = 44 := by
  decide +kernel

theorem write_header_eq : write_header = (⟨header_bytes, 44⟩, 36) := by
  decide +kernel

/-- The bytes of the samples. -/
def sample_bytes (blocks : List (Fin SAMPLES → Int)) : List UInt8 :=
  blocks.flatMap fun inverse_out =>
    (List.finRange SAMPLES).flatMap fun n => word_bytes (inverse_out n) 2

theorem streamed_eq (blocks : List (Fin SAMPLES → Int)) :
    streamed blocks =
      ⟨header_bytes ++ sample_bytes blocks, 44 + (sample_bytes blocks).length⟩ := by
  have hword : ∀ (value : Int) (wav : Stream), wav.pos = wav.contents.length →
      write_word value 2 wav = ⟨wav.contents ++ word_bytes value 2,
        wav.pos + (word_bytes value 2).length⟩ := by
    intro value wav h
    rw [write_word_eq value 2 (Nat.le_of_eq h), Stream.write_at_end h]
  have hblock : ∀ (wav : Stream) (inverse_out : Fin SAMPLES → Int),
      wav.pos = wav.contents.length → write_samples inverse_out wav =
        ⟨wav.contents ++ (List.finRange SAMPLES).flatMap fun n => word_bytes (inverse_out n) 2,
          wav.pos + ((List.finRange SAMPLES).flatMap fun n =>
            word_bytes (inverse_out n) 2).length⟩ := by
    intro wav inverse_out h
    exact Stream.foldl_at_end (fun wav n => hword (inverse_out n) wav) _ h
  rw [streamed, write_header_eq, Stream.foldl_at_end hblock blocks rfl]
  rfl

theorem sample_bytes_length (blocks : List (Fin SAMPLES → Int)) :
    (sample_bytes blocks).length = blocks.length * 2048 := by
  refine Blocks.length_flatMap (fun inverse_out => ?_) blocks
  rw [Blocks.length_flatMap (fun n => word_bytes_length (inverse_out n) 2), List.length_finRange]
  rfl

/-! ## The patched file -/

/-- `file_length - data_chunk_pos + 8`. -/
theorem data_size_word (w : Nat) {length : Nat} (h : 28 ≤ length) :
    BitVec.ofNat w length - BitVec.ofNat w 36 + 8 = BitVec.ofNat w (length - 28) := by
  have hlength : BitVec.ofNat w length = BitVec.ofNat w (length - 28) + BitVec.ofNat w 28 := by
    rw [← BitVec.ofNat_add, Nat.sub_add_cancel h]
  have hpos : BitVec.ofNat w 36 = BitVec.ofNat w 28 + 8 := BitVec.ofNat_add 28 8
  rw [hlength, hpos, sub_add_eq_sub_sub, add_sub_cancel_right, sub_add_cancel]

/-- `file_length - 8`. -/
theorem riff_size_word (w : Nat) {length : Nat} (h : 8 ≤ length) :
    BitVec.ofNat w length - 8 = BitVec.ofNat w (length - 8) := by
  have hlength : BitVec.ofNat w length = BitVec.ofNat w (length - 8) + BitVec.ofNat w 8 := by
    rw [← BitVec.ofNat_add, Nat.sub_add_cancel h]
  rw [hlength]
  exact BitVec.add_sub_cancel _ _

/-- A `size_t` is written with as many bytes as it has, or with four. -/
theorem bytes_ofNat (t : SizeT) {n v : Nat} (hn : n ≤ t.sizeof) :
    bytes n (BitVec.ofNat (8 * t.sizeof) v).toNat = bytes n v := by
  refine bytes_congr ?_
  have hdvd : 256 ^ n ∣ 2 ^ (8 * t.sizeof) := by
    rw [Nat.pow_mul]
    exact Nat.pow_dvd_pow 256 hn
  rw [BitVec.toNat_ofNat, Nat.mod_mod_of_dvd v hdvd]

theorem four_le_sizeof (t : SizeT) : 4 ≤ t.sizeof := by
  cases t with
  | four => exact Nat.le_refl 4
  | eight => exact Nat.le_add_right 4 4

/-- The data size is written at 40, over the samples where it has more than four bytes. -/
theorem write_data_size (t : SizeT) (v : Nat) (samples : List UInt8) :
    (write_word (BitVec.ofNat (8 * t.sizeof) v).toNat t.sizeof
      ⟨header_bytes ++ samples, 40⟩).contents =
      header_bytes.take 40 ++ bytes t.sizeof v ++ samples.drop (t.sizeof - 4) := by
  have hheader := header_bytes_length
  have hfour := four_le_sizeof t
  have hbehind : 40 + t.sizeof - header_bytes.length = t.sizeof - 4 := by omega
  rw [write_word_contents _ _ (by rw [List.length_append]; omega), word_bytes_natCast,
    bytes_ofNat t (Nat.le_refl _), List.take_append_of_le_length (by omega), List.drop_append,
    List.drop_of_length_le (by omega), List.nil_append, hbehind]

/-- The size of the file is written at 4. -/
theorem write_riff_size (t : SizeT) (v : Nat) (rest : List UInt8) :
    (write_word (BitVec.ofNat (8 * t.sizeof) v).toNat 4
      ⟨header_bytes.take 40 ++ rest, 4⟩).contents =
      header_bytes.take 4 ++ bytes 4 v ++ (header_bytes.take 40).drop 8 ++ rest := by
  have hstart : (header_bytes.take 40).length = 40 :=
    List.length_take_of_le (by rw [header_bytes_length]; omega)
  have htake : (header_bytes.take 40).take 4 = header_bytes.take 4 := List.take_take
  rw [write_word_contents _ _ (by rw [List.length_append]; omega), word_bytes_natCast,
    bytes_ofNat t (four_le_sizeof t), List.take_append_of_le_length (by omega),
    List.drop_append_of_le_length (by omega), htake, List.append_assoc _ _ rest]

/-- The bytes of the file: the data size is too large by 16, and with an 8-byte `size_t` it covers
the first four bytes of the samples. -/
theorem example_wav_eq (t : SizeT) (blocks : List (Fin SAMPLES → Int)) :
    example_wav t blocks =
      header_bytes.take 4 ++ bytes 4 (36 + blocks.length * 2048) ++
        (header_bytes.take 40).drop 8 ++ bytes t.sizeof (16 + blocks.length * 2048) ++
        (sample_bytes blocks).drop (t.sizeof - 4) := by
  have hpos : (BitVec.ofNat (8 * t.sizeof) 36 + 4).toNat = 40 := by
    cases t with
    | four => rfl
    | eight => rfl
  have hlength := sample_bytes_length blocks
  have hdata : 44 + (sample_bytes blocks).length - 28 = 16 + blocks.length * 2048 := by omega
  have hriff : 44 + (sample_bytes blocks).length - 8 = 36 + blocks.length * 2048 := by omega
  rw [example_wav, write_header_eq, streamed_eq, fix_sizes]
  simp only [hpos, data_size_word _ (show 28 ≤ 44 + (sample_bytes blocks).length by omega),
    riff_size_word _ (show 8 ≤ 44 + (sample_bytes blocks).length by omega), Stream.seek,
    write_data_size, hdata, hriff, List.append_assoc (header_bytes.take 40)]
  rw [write_riff_size]
  simp only [List.append_assoc]

/-- The sizes in the file are its own, and every other byte is what was streamed. -/
structure Consistent (t : SizeT) (blocks : List (Fin SAMPLES → Int)) : Prop where
  riff_size : word (((example_wav t blocks).drop 4).take 4) = (example_wav t blocks).length - 8
  data_size : word (((example_wav t blocks).drop 40).take 4) = (example_wav t blocks).length - 44
  others : ∀ i, (i < 4 ∨ 8 ≤ i ∧ i < 40 ∨ 44 ≤ i) →
    (example_wav t blocks)[i]? = (streamed blocks).contents[i]?

theorem example_wav_length (t : SizeT) (blocks : List (Fin SAMPLES → Int)) :
    (example_wav t blocks).length =
      40 + t.sizeof + (blocks.length * 2048 - (t.sizeof - 4)) := by
  rw [example_wav_eq]
  simp only [List.length_append, List.length_take, List.length_drop, bytes_length,
    header_bytes_length, sample_bytes_length]
  omega

theorem data_size_field (t : SizeT) (blocks : List (Fin SAMPLES → Int)) :
    word (((example_wav t blocks).drop 40).take 4) = (16 + blocks.length * 2048) % 256 ^ 4 := by
  have hbefore : (header_bytes.take 4 ++ bytes 4 (36 + blocks.length * 2048) ++
      (header_bytes.take 40).drop 8).length = 40 := by
    simp [header_bytes_length]
  have hfield : (bytes t.sizeof (16 + blocks.length * 2048) ++
      (sample_bytes blocks).drop (t.sizeof - 4)).take 4 = bytes 4 (16 + blocks.length * 2048) := by
    cases t with
    | four => rfl
    | eight => rfl
  rw [example_wav_eq, List.append_assoc, List.drop_left' hbefore, hfield, word_bytes_mod]

/-- **The sizes in `example.wav`.** Whatever is streamed and with either `size_t`, they are not
those of the file. -/
theorem never_consistent (t : SizeT) (blocks : List (Fin SAMPLES → Int)) :
    ¬Consistent t blocks := by
  intro h
  have hdata := h.data_size
  rw [data_size_field, example_wav_length] at hdata
  cases t with
  | four =>
    simp only [SizeT.sizeof] at hdata
    omega
  | eight =>
    simp only [SizeT.sizeof] at hdata
    omega

/-- A block of ones, as many times as the transforms multiply it by. -/
def ones : Fin SAMPLES → Int := fun _ => 1024

/-- After one block of ones with an 8-byte `size_t`: 2064 bytes for 2048, and the first sample is
gone. -/
theorem ones_not_consistent :
    word (((example_wav .eight [ones]).drop 40).take 4) = 2064 ∧
    (example_wav .eight [ones]).length - 44 = 2048 ∧
    (example_wav .eight [ones])[45]? = some 0 ∧ (streamed [ones]).contents[45]? = some 4 ∧
    ¬Consistent .eight [ones] := by
  have hdata : word (((example_wav .eight [ones]).drop 40).take 4) = 2064 := data_size_field _ _
  have hlen : (example_wav .eight [ones]).length - 44 = 2048 := by
    rw [example_wav_length]
    rfl
  refine ⟨hdata, hlen, ?_, ?_, ?_⟩
  · rw [example_wav_eq]
    decide +kernel
  · rw [streamed_eq]
    decide +kernel
  · intro h
    have hsize := h.data_size
    rw [hdata, hlen] at hsize
    exact absurd hsize (by decide)

end Test3
end SoundScreen
