import SoundScreen.Lib.LittleEndian
import SoundScreen.Lib.Stream

/-!
# SoundScreen.ReadWav.Copy

`AuxIVA/read_wav_test.cpp`, which copies a WAV file. The files are opened, and `fread` and
`fwrite` are not cut short; what is printed on the terminal is left out.

* `main_eq`: the output is the header and then the whole input, unless the header makes the
  program divide by zero.
* `never_copied`: so it is never the input.
-/

namespace SoundScreen
namespace ReadWav

open LittleEndian

/-- `sizeof(wav_hdr)`; the struct has no padding. -/
def headerSize : Nat := 44

def BUFFER_SIZE : Nat := 4096

/-- The bytes of a `wav_hdr`. -/
structure WavHdr where
  bytes : List UInt8
  length_bytes : bytes.length = headerSize

def WavHdr.ChunkSize (wavHeader : WavHdr) : Nat := word ((wavHeader.bytes.drop 4).take 4)

def WavHdr.bitsPerSample (wavHeader : WavHdr) : Nat := word ((wavHeader.bytes.drop 34).take 2)

inductive Fault where
  | division_by_zero
  deriving DecidableEq, Repr

def divide (a b : Nat) : Except Fault Nat :=
  if b = 0 then .error .division_by_zero else .ok (a / b)

theorem headerSize_pos : 0 < headerSize := Nat.succ_pos 43

theorem BUFFER_SIZE_pos : 0 < BUFFER_SIZE := Nat.succ_pos 4095

theorem fread_length_le (n : Nat) (s : Stream) : (s.fread n).1.length ≤ n :=
  List.length_take_le n s.rest

/-- `fread(&wavHeader, 1, headerSize, wavFile)`, over what is in memory before. -/
def read_header (memory : WavHdr) (wavFile : Stream) : Nat × WavHdr × Stream :=
  let r := wavFile.fread headerSize
  (r.1.length, ⟨r.1 ++ memory.bytes.drop r.1.length, by
    have hle := fread_length_le headerSize wavFile
    rw [List.length_append, List.length_drop, memory.length_bytes]
    exact Nat.add_sub_cancel' hle⟩, r.2)

/-- `bytesPerSample` and `numSamples`. -/
def numSamples (wavHeader : WavHdr) : Except Fault Nat :=
  let bytesPerSample := wavHeader.bitsPerSample / 8
  divide wavHeader.ChunkSize bytesPerSample

/-- The size, and the file at its start. -/
def getFileSize (inFile : Stream) : Nat × Stream :=
  let inFile := inFile.seek_end
  let fileSize := inFile.pos
  (fileSize, inFile.seek 0)

/-- The first 44 bytes of a file that has them. -/
def header (input : List UInt8) (h : headerSize ≤ input.length) : WavHdr :=
  ⟨input.take headerSize, List.length_take_of_le h⟩

theorem read_header_of_le (memory : WavHdr) {input : List UInt8} (h : headerSize ≤ input.length) :
    read_header memory (Stream.opened input) =
      (headerSize, header input h, ⟨input, headerSize⟩) := by
  have hread : (Stream.opened input).fread headerSize =
      (input.take headerSize, ⟨input, headerSize⟩) := by
    change (input.take headerSize, Stream.mk input (0 + (input.take headerSize).length)) = _
    rw [List.length_take_of_le h, Nat.zero_add]
  unfold read_header header
  simp only [hread, List.length_take_of_le h]
  rw [Prod.mk.injEq, Prod.mk.injEq, WavHdr.mk.injEq]
  refine ⟨rfl, ?_, rfl⟩
  rw [List.drop_of_length_le (Nat.le_of_eq memory.length_bytes), List.append_nil]

theorem numSamples_eq (wavHeader : WavHdr) : numSamples wavHeader =
    if wavHeader.bitsPerSample < 8 then .error .division_by_zero
    else .ok (wavHeader.ChunkSize / (wavHeader.bitsPerSample / 8)) := by
  unfold numSamples divide
  have hiff : wavHeader.bitsPerSample / 8 = 0 ↔ wavHeader.bitsPerSample < 8 := by omega
  simp only [hiff]

namespace Copy

/-- The exit status and the contents of the output file. -/
def main (memory : WavHdr) (input : List UInt8) : Except Fault (Int × List UInt8) := do
  let wavFile := Stream.opened input
  let outFile := Stream.opened []
  let (bytesRead, wavHeader, wavFile) := read_header memory wavFile
  if bytesRead > 0 then
    let _ ← numSamples wavHeader
    let (_, wavFile) := getFileSize wavFile
    let outFile := outFile.write wavHeader.bytes
    let bytesWritten := wavHeader.bytes.length
    if bytesWritten < 1 then
      return (-1, outFile.contents)
    else if bytesWritten ≠ bytesRead then
      return (-1, outFile.contents)
    let (_, outFile) := wavFile.while_fread BUFFER_SIZE (fun block => Stream.write block) outFile
    return (0, outFile.contents)
  else
    return (0, outFile.contents)

theorem copy_loop (wavFile outFile : Stream) (h : outFile.pos = outFile.contents.length) :
    (wavFile.while_fread BUFFER_SIZE (fun block => Stream.write block) outFile).2.contents =
      outFile.contents ++ wavFile.rest := by
  have hbody : ∀ read block out, out = ⟨outFile.contents ++ read, outFile.pos + read.length⟩ →
      Stream.write block out =
        ⟨outFile.contents ++ (read ++ block), outFile.pos + (read ++ block).length⟩ := by
    rintro read block out rfl
    rw [Stream.write_at_end]
    · simp only [List.append_assoc, List.length_append, Nat.add_assoc]
    · rw [List.length_append, h]
  have hloop : (wavFile.while_fread BUFFER_SIZE (fun block => Stream.write block) outFile).2 =
      ⟨outFile.contents ++ wavFile.rest, outFile.pos + wavFile.rest.length⟩ :=
    Stream.while_fread_rule
      (fun read out => out = ⟨outFile.contents ++ read, outFile.pos + read.length⟩)
      BUFFER_SIZE_pos
      (fun read block out hinv _ _ _ => hbody read block out hinv) (by rw [List.append_nil]; rfl)
  rw [hloop]

theorem main_eq (memory : WavHdr) {input : List UInt8} (h : headerSize ≤ input.length) :
    main memory input =
      if (header input h).bitsPerSample < 8 then .error .division_by_zero
      else .ok (0, input.take headerSize ++ input) := by
  have hheader : (header input h).bytes.length = headerSize := (header input h).length_bytes
  have hwrite : (Stream.opened []).write (header input h).bytes =
      ⟨input.take headerSize, headerSize⟩ := by
    rw [Stream.write_at_end rfl, hheader]
    rfl
  -- `getFileSize` has put the input back to its start
  have hcopy := copy_loop (Stream.seek 0 (Stream.seek_end ⟨input, headerSize⟩))
    ⟨input.take headerSize, headerSize⟩ (List.length_take_of_le h).symm
  rw [Stream.rest_seek_zero] at hcopy
  simp only [main, read_header_of_le memory h, numSamples_eq, getFileSize, hwrite, hheader,
    gt_iff_lt, headerSize_pos, if_true]
  by_cases hbits : (header input h).bitsPerSample < 8
  · rw [if_pos hbits, if_pos hbits]
    rfl
  · rw [if_neg hbits, if_neg hbits]
    simp only [bind, Except.bind, pure, Except.pure, Nat.lt_one_iff, Nat.ne_of_gt headerSize_pos,
      if_false, ne_eq, not_true_eq_false, hcopy]
    rfl

/-- **The WAV copy.** For every input with a whole header: the program divides by zero, or it
writes the header a second time, since the loop starts where `getFileSize` has left the input. -/
theorem never_copied (memory : WavHdr) (input : List UInt8) (h : headerSize ≤ input.length) :
    main memory input =
      (if (header input h).bitsPerSample < 8 then .error .division_by_zero
      else .ok (0, input.take headerSize ++ input)) ∧
    ¬∃ exit, main memory input = .ok (exit, input) := by
  have hmain := main_eq memory h
  refine ⟨hmain, ?_⟩
  rintro ⟨exit, hcopy⟩
  rw [hmain] at hcopy
  split at hcopy
  · cases hcopy
  · have hlen := congrArg List.length (Prod.mk.inj (Except.ok.inj hcopy)).2
    rw [List.length_append, List.length_take_of_le h] at hlen
    have hpos := headerSize_pos
    omega

/-- A header alone, of 16-bit samples. -/
def header_only : List UInt8 := List.replicate 34 0 ++ [16, 0] ++ List.replicate 8 0

def zeros : WavHdr := ⟨List.replicate 44 0, rfl⟩

theorem header_only_doubled : main zeros header_only = .ok (0, header_only ++ header_only) ∧
    ¬∃ exit, main zeros header_only = .ok (exit, header_only) := by
  have hmain : main zeros header_only = .ok (0, header_only ++ header_only) :=
    main_eq zeros (by decide : headerSize ≤ header_only.length)
  refine ⟨hmain, ?_⟩
  rw [hmain]
  rintro ⟨exit, hcopy⟩
  cases hcopy

theorem zeros_never_copied : main zeros zeros.bytes = .error .division_by_zero ∧
    ¬∃ exit, main zeros zeros.bytes = .ok (exit, zeros.bytes) :=
  never_copied zeros zeros.bytes (by decide)

end Copy

end ReadWav
end SoundScreen
