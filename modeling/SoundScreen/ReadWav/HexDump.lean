import SoundScreen.Lib.Spelling
import SoundScreen.ReadWav.Copy

/-!
# SoundScreen.ReadWav.HexDump

`SoundRecordPlay/read_wav.cpp`, which writes the data of a WAV file as hexadecimal digits, under
the same conditions as `SoundScreen.ReadWav.Copy`. What the buffer holds before anything is read
into it is a parameter.

* `main_dumped`: the text is that of the data and of what the last block leaves of the buffer.
* `determines_iff`: when the text shows the data.
-/

namespace SoundScreen
namespace ReadWav
namespace HexDump

open Spelling

/-- `int8_t buffer[BUFFER_SIZE]`, its bytes without a sign. -/
abbrev Buffer := Vector UInt8 BUFFER_SIZE

/-- The buffer after `fread` has stored `block`. -/
def store {n : Nat} (buffer : Vector UInt8 n) (block : List UInt8) : Vector UInt8 n :=
  Vector.ofFn fun i => (block[i.val]?).getD (getElem buffer i i.isLt)

/-- `fprintf(fout, "%x", buffer[i])`: the element becomes an `int`, and is printed as the
`unsigned int` of the same bits. -/
def hex (b : UInt8) : List Char := Nat.toDigits 16 (b.toBitVec.signExtend 32).toNat

/-- The buffer and the text after one turn of the `while` loop, which prints all elements. -/
def dump_block (block : List UInt8) (state : Buffer × List Char) : Buffer × List Char :=
  let buffer := store state.1 block
  (buffer, state.2 ++ buffer.toList.flatMap hex)

/-- The exit status and the text in the output file. -/
def main (memory : WavHdr) (buffer : Buffer) (input : List UInt8) :
    Except Fault (Int × List Char) := do
  let wavFile := Stream.opened input
  let (bytesRead, wavHeader, wavFile) := read_header memory wavFile
  if bytesRead > 0 then
    let _ ← numSamples wavHeader
    let (_, _, text) := wavFile.while_fread BUFFER_SIZE dump_block (buffer, [])
    return (0, text)
  else
    return (0, [])

/-! ## The text of bytes -/

/-- The text of bytes, and nothing else. -/
def encoding (bytes : List UInt8) : List Char := bytes.flatMap hex

/-- The digits of `hex b`: one below 16, two below 128, and from 128 on two after six times 15. -/
def digits (b : UInt8) : List (Fin 16) :=
  let low := [Fin.ofNat 16 (b.toNat / 16), Fin.ofNat 16 b.toNat]
  if b < 16 then [Fin.ofNat 16 b.toNat] else if b < 128 then low else List.replicate 6 15 ++ low

/-- The byte that is one digit. -/
def digitByte (d : Fin 16) : UInt8 := UInt8.ofNat d.val

def digitChar (d : Fin 16) : Char := Nat.digitChar d.val

theorem hex_eq (b : UInt8) : hex b = (digits b).map digitChar := by
  have hall : ∀ n : Fin 256,
      hex (UInt8.ofNat n.val) = (digits (UInt8.ofNat n.val)).map digitChar := by
    decide +kernel
  have hb := hall ⟨b.toNat, b.toNat_lt⟩
  rwa [UInt8.ofNat_toNat] at hb

theorem digits_digitByte (d : Fin 16) : digits (digitByte d) = [d] := by
  revert d
  decide

theorem digitChar_injective : Function.Injective digitChar := by
  unfold Function.Injective
  decide

theorem hex_ne_nil (b : UInt8) : hex b ≠ [] := by
  rw [hex_eq, ne_eq, List.map_eq_nil_iff]
  unfold digits
  split
  · exact List.cons_ne_nil _ _
  · split
    · exact List.cons_ne_nil _ _
    · exact List.append_ne_nil_of_right_ne_nil _ (List.cons_ne_nil _ _)

theorem encoding_eq_nil_iff {bytes : List UInt8} : encoding bytes = [] ↔ bytes = [] := by
  constructor
  · intro h
    cases bytes with
    | nil => rfl
    | cons b bytes =>
      rw [encoding, List.flatMap_cons, List.append_eq_nil_iff] at h
      exact absurd h.1 (hex_ne_nil b)
  · rintro rfl
    rfl

theorem encoding_append (xs ys : List UInt8) : encoding (xs ++ ys) = encoding xs ++ encoding ys :=
  List.flatMap_append

theorem encoding_eq_map (bytes : List UInt8) :
    encoding bytes = (bytes.flatMap digits).map digitChar := by
  rw [List.map_flatMap]
  exact congrArg (List.flatMap · bytes) (funext hex_eq)

/-- The texts of two lists of bytes are the same exactly if one turns into the other when bytes
are replaced by their digits, and the other way. -/
theorem encoding_eq_iff {xs ys : List UInt8} :
    encoding xs = encoding ys ↔ Relation.EqvGen (Respell digits digitByte) xs ys := by
  rw [encoding_eq_map, encoding_eq_map, digitChar_injective.list_map.eq_iff]
  exact flatMap_spell_eq_iff digits_digitByte

/-! ## The loop -/

theorem store_toList {n : Nat} (buffer : Vector UInt8 n) {block : List UInt8}
    (h : block.length ≤ n) :
    (store buffer block).toList = block ++ buffer.toList.drop block.length := by
  rw [store, Vector.toList_ofFn]
  refine List.ext_getElem ?_ ?_
  · rw [List.length_ofFn, List.length_append, List.length_drop, Vector.length_toList]
    omega
  · intro i hi hi'
    rw [List.getElem_ofFn]
    by_cases hblock : i < block.length
    · rw [List.getElem?_eq_getElem hblock, Option.getD_some, List.getElem_append_left hblock]
    · have hle : block.length ≤ i := by omega
      have hin : block.length + (i - block.length) = i := by omega
      rw [List.getElem?_eq_none hle, Option.getD_none, List.getElem_append_right hle,
        List.getElem_drop, Vector.getElem_toList]
      simp only [hin, Fin.getElem_fin]

/-- What has been printed after the bytes `read`: they, and what is left of the buffer behind a
block that did not fill it. -/
def Dumped (read : List UInt8) (text : List Char) : Prop :=
  ∃ stale : List UInt8, text = encoding (read ++ stale) ∧ stale.length < BUFFER_SIZE ∧
    BUFFER_SIZE ∣ (read ++ stale).length

theorem dump_block_dumped {read block : List UInt8} {state : Buffer × List Char}
    (h : Dumped read state.2) (hread : BUFFER_SIZE ∣ read.length) (hne : block ≠ [])
    (hle : block.length ≤ BUFFER_SIZE) : Dumped (read ++ block) (dump_block block state).2 := by
  obtain ⟨stale, htext, hlt, hdvd⟩ := h
  have hnil : stale = [] := by
    rw [List.length_append, ← Nat.dvd_add_iff_right hread] at hdvd
    exact List.eq_nil_of_length_eq_zero (Nat.eq_zero_of_dvd_of_lt hdvd hlt)
  have hpos := List.length_pos_of_ne_nil hne
  have hlen : (state.1.toList.drop block.length).length = BUFFER_SIZE - block.length := by
    rw [List.length_drop, Vector.length_toList]
  refine ⟨state.1.toList.drop block.length, ?_, by omega, ?_⟩
  · change state.2 ++ encoding (store state.1 block).toList = _
    rw [store_toList _ hle, htext, hnil, List.append_nil, ← encoding_append, List.append_assoc]
  · rw [List.length_append, List.length_append, hlen, Nat.add_assoc, Nat.add_sub_cancel' hle]
    exact Nat.dvd_add hread (Nat.dvd_refl _)

/-- The bytes after the header. -/
def data (input : List UInt8) : List UInt8 := input.drop headerSize

theorem main_dumped (memory : WavHdr) (buffer : Buffer) {input : List UInt8}
    (h : headerSize ≤ input.length) (hbits : 8 ≤ (header input h).bitsPerSample) :
    ∃ text, main memory buffer input = .ok (0, text) ∧ Dumped (data input) text := by
  refine ⟨((Stream.mk input headerSize).while_fread BUFFER_SIZE dump_block (buffer, [])).2.2,
    ?_, ?_⟩
  · simp only [main, read_header_of_le memory h, numSamples_eq, if_neg (Nat.not_lt.mpr hbits)]
    rfl
  · refine Stream.while_fread_rule (fun read (state : Buffer × List Char) => Dumped read state.2)
      BUFFER_SIZE_pos ?_ ⟨[], rfl, BUFFER_SIZE_pos, Nat.dvd_zero _⟩
    intro read block state hinv hdvd hne hle
    exact dump_block_dumped hinv hdvd hne hle

/-- The texts of two files, whatever is in memory before, are those of their data, so that they are
the same exactly if the data are. -/
structure Determines (f g : List UInt8) : Prop where
  same_iff : ∀ memory buffer memory' buffer',
    main memory buffer f = main memory' buffer' g ↔ data f = data g
  left : ∀ memory buffer, main memory buffer f = .ok (0, encoding (data f))
  right : ∀ memory buffer, main memory buffer g = .ok (0, encoding (data g))

/-- The text of a file is that of its data exactly if they are whole blocks. -/
theorem main_encoding_iff (memory : WavHdr) (buffer : Buffer) {input : List UInt8}
    (h : headerSize ≤ input.length) (hbits : 8 ≤ (header input h).bitsPerSample) :
    main memory buffer input = .ok (0, encoding (data input)) ↔
      BUFFER_SIZE ∣ (data input).length := by
  obtain ⟨text, hmain, stale, rfl, hlt, hdvd⟩ := main_dumped memory buffer h hbits
  rw [hmain]
  constructor
  · intro heq
    have htext := (Prod.mk.inj (Except.ok.inj heq)).2
    rw [encoding_append, List.append_right_eq_self, encoding_eq_nil_iff] at htext
    rwa [htext, List.append_nil] at hdvd
  · intro hdata
    rw [List.length_append, ← Nat.dvd_add_iff_right hdata] at hdvd
    rw [List.eq_nil_of_length_eq_zero (Nat.eq_zero_of_dvd_of_lt hdvd hlt), List.append_nil]

/-- **The hex dump.** For every two files with whole headers and 8 bits or more per sample: their
texts show their data exactly if both data are whole blocks, and are the same or do not turn into
each other by the replacement of bytes by their digits and back. -/
theorem determines_iff {f g : List UInt8} (hf : headerSize ≤ f.length) (hg : headerSize ≤ g.length)
    (hfbits : 8 ≤ (header f hf).bitsPerSample) (hgbits : 8 ≤ (header g hg).bitsPerSample) :
    Determines f g ↔
      BUFFER_SIZE ∣ (data f).length ∧ BUFFER_SIZE ∣ (data g).length ∧
        (Relation.EqvGen (Respell digits digitByte) (data f) (data g) → data f = data g) := by
  have hleft := fun memory buffer => main_encoding_iff memory buffer hf hfbits
  have hright := fun memory buffer => main_encoding_iff memory buffer hg hgbits
  constructor
  · intro h
    have memory : WavHdr := header f hf
    have buffer : Buffer := Vector.replicate BUFFER_SIZE 0
    refine ⟨(hleft memory buffer).mp (h.left memory buffer),
      (hright memory buffer).mp (h.right memory buffer), ?_⟩
    intro hsame
    rw [← h.same_iff memory buffer memory buffer, h.left, h.right, encoding_eq_iff.mpr hsame]
  · rintro ⟨hfull, hgull, hsame⟩
    have hl := fun memory buffer => (hleft memory buffer).mpr hfull
    have hr := fun memory buffer => (hright memory buffer).mpr hgull
    refine ⟨?_, hl, hr⟩
    intro memory buffer memory' buffer'
    rw [hl, hr]
    constructor
    · intro heq
      exact hsame (encoding_eq_iff.mp (Prod.mk.inj (Except.ok.inj heq)).2)
    · intro heq
      rw [heq]

/-- A file with the header of `Copy.header_only`. -/
def wav (data : List UInt8) : List UInt8 := Copy.header_only ++ data

theorem wav_length (bytes : List UInt8) : headerSize ≤ (wav bytes).length := by
  rw [wav, List.length_append]
  exact Nat.le_add_right headerSize bytes.length

theorem wav_bits (bytes : List UInt8) :
    8 ≤ (header (wav bytes) (wav_length bytes)).bitsPerSample := by
  have htake : (wav bytes).take headerSize = Copy.header_only := List.take_left' rfl
  have hheader : header (wav bytes) (wav_length bytes) = ⟨Copy.header_only, rfl⟩ := by
    simp only [header, htake]
  rw [hheader]
  decide

theorem data_wav (bytes : List UInt8) : data (wav bytes) = bytes := List.drop_left' rfl

theorem block_and_none :
    Determines (wav (List.replicate BUFFER_SIZE 0)) (wav []) := by
  rw [determines_iff (wav_length _) (wav_length _) (wav_bits _) (wav_bits _), data_wav, data_wav,
    List.length_replicate]
  refine ⟨Nat.dvd_refl _, Nat.dvd_zero _, ?_⟩
  intro hsame
  exact encoding_eq_nil_iff.mp (encoding_eq_iff.mpr hsame)

/-- The bytes 01 11 and 11 01 in front of zeros have the same text; and the text of one byte is
not that of the byte. -/
theorem text_of_other_data :
    (∀ memory buffer,
      main memory buffer (wav ([0x01, 0x11] ++ List.replicate 4094 0)) =
        main memory buffer (wav ([0x11, 0x01] ++ List.replicate 4094 0))) ∧
    ¬Determines (wav ([0x01, 0x11] ++ List.replicate 4094 0))
      (wav ([0x11, 0x01] ++ List.replicate 4094 0)) ∧
    (∀ memory buffer, main memory buffer (wav [7]) ≠ .ok (0, encoding [7])) := by
  have hmain : ∀ memory buffer bytes, BUFFER_SIZE ∣ bytes.length →
      main memory buffer (wav bytes) = .ok (0, encoding bytes) := by
    intro memory buffer bytes hdvd
    have hiff := main_encoding_iff memory buffer (wav_length bytes) (wav_bits bytes)
    rw [data_wav] at hiff
    exact hiff.mpr hdvd
  have hsame : ∀ memory buffer,
      main memory buffer (wav ([0x01, 0x11] ++ List.replicate 4094 0)) =
        main memory buffer (wav ([0x11, 0x01] ++ List.replicate 4094 0)) := by
    intro memory buffer
    rw [hmain, hmain, encoding_append, encoding_append]
    · rfl
    · rw [List.length_append, List.length_replicate]
      decide
    · rw [List.length_append, List.length_replicate]
      decide
  refine ⟨hsame, ?_, ?_⟩
  · intro h
    have hdata := (h.same_iff Copy.zeros (Vector.replicate BUFFER_SIZE 0) Copy.zeros
      (Vector.replicate BUFFER_SIZE 0)).mp (hsame _ _)
    rw [data_wav, data_wav] at hdata
    cases hdata
  · intro memory buffer htext
    have hiff := main_encoding_iff memory buffer (wav_length [7]) (wav_bits [7])
    rw [data_wav] at hiff
    exact absurd (hiff.mp htext) (by decide)

end HexDump
end ReadWav
end SoundScreen
