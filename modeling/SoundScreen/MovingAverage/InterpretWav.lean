import SoundScreen.Lib.Blocks
import SoundScreen.Lib.LittleEndian
import SoundScreen.Numpy

/-!
# SoundScreen.MovingAverage.InterpretWav

`filter/filter.py`: from the bytes of a WAV file to a row of samples for each channel. Samples of
one byte are unsigned, of two bytes signed; multi-byte samples are little-endian. The function is
also in `filter/NewBandPass.py`, in the same words.

* `fromstring_tobytes`: reading undoes packing.
* `interpret_wav_ok`: whole interleaved frames are read as their channels.
* `interpret_wav_decodes`: both layouts are read back, and nothing else is accepted.
-/

namespace SoundScreen
namespace MovingAverage

open Interleave

/-- The bits of a sample, as a number. -/
def toWord : (d : DType) → d.Elem → Nat
  | .uint8, x => x.toNat
  | .int16, x => x.toUInt16.toNat

def ofWord : (d : DType) → Nat → d.Elem
  | .uint8, v => UInt8.ofNat v
  | .int16, v => Int16.ofNat v

/-- The bytes of an array. -/
def tobytes (d : DType) (xs : List d.Elem) : List UInt8 :=
  (xs.map fun x => LittleEndian.bytes d.itemsize (toWord d x)).flatten

/-- `np.fromstring(raw_bytes, dtype=d)`. -/
def fromstring (d : DType) (raw_bytes : List UInt8) : Except PyError (List d.Elem) :=
  if raw_bytes.length % d.itemsize = 0 then
    .ok ((Blocks.blocks d.itemsize raw_bytes).map fun item => ofWord d (LittleEndian.word item))
  else
    .error (.ValueError "string size must be a multiple of element size")

/-- The type for a width of samples in bytes. -/
def dtype (sample_width : Nat) : Except PyError DType :=
  if sample_width = 1 then
    .ok .uint8
  else if sample_width = 2 then
    .ok .int16
  else
    .error (.ValueError "Only supports 8 and 16 bit audio formats.")

def interpret_wav (raw_bytes : List UInt8) (n_frames n_channels sample_width : Nat)
    (interleaved : Bool) : Except PyError (Σ d : DType, Mat d.Elem) := do
  let d ← dtype sample_width
  let channels ← fromstring d raw_bytes
  if interleaved then
    let frames ← Mat.reshape channels n_frames n_channels
    return ⟨d, frames.T⟩
  else
    let rows ← Mat.reshape channels n_channels n_frames
    return ⟨d, rows⟩

theorem itemsize_pos (d : DType) : 0 < d.itemsize := by
  cases d <;> exact Nat.succ_pos _

theorem dtype_itemsize (d : DType) : dtype d.itemsize = .ok d := by
  cases d <;> rfl

theorem toWord_lt (d : DType) (x : d.Elem) : toWord d x < 256 ^ d.itemsize := by
  cases d with
  | uint8 => exact x.toNat_lt
  | int16 => exact x.toUInt16.toNat_lt

theorem ofWord_toWord (d : DType) (x : d.Elem) : ofWord d (toWord d x) = x := by
  cases d with
  | uint8 => exact UInt8.ofNat_toNat
  | int16 =>
    refine Int16.toBitVec_inj.mp ?_
    exact (BitVec.ofNat_toNat 16 x.toBitVec).trans (BitVec.setWidth_eq _)

theorem fromstring_tobytes (d : DType) (xs : List d.Elem) :
    fromstring d (tobytes d xs) = .ok xs := by
  have hitems : ∀ l ∈ xs.map fun x => LittleEndian.bytes d.itemsize (toWord d x),
      l.length = d.itemsize := by
    intro l hl
    obtain ⟨x, -, rfl⟩ := List.mem_map.mp hl
    exact LittleEndian.bytes_length _ _
  have hlen := Blocks.flatten_length hitems
  rw [fromstring, tobytes, if_pos (by rw [hlen, Nat.mul_mod_left]),
    Blocks.blocks_flatten (itemsize_pos d) hitems, List.map_map]
  refine congrArg Except.ok ?_
  calc xs.map _ = xs.map fun x => x := by
        refine List.map_congr_left ?_
        intro x _
        exact (congrArg (ofWord d) (LittleEndian.word_bytes (toWord_lt d x))).trans
          (ofWord_toWord d x)
    _ = xs := List.map_id' xs

/-! ## Both layouts -/

/-- After the bytes have been read, the layout is all there is to it. -/
theorem interpret_wav_of_fromstring {d : DType} {raw_bytes : List UInt8} {xs : List d.Elem}
    (h : fromstring d raw_bytes = .ok xs) (n_frames n_channels : Nat) (interleaved : Bool) :
    interpret_wav raw_bytes n_frames n_channels d.itemsize interleaved =
      if interleaved then (Mat.reshape xs n_frames n_channels).map fun frames => ⟨d, frames.T⟩
      else (Mat.reshape xs n_channels n_frames).map fun rows => ⟨d, rows⟩ := by
  simp only [interpret_wav, dtype_itemsize, h, bind, Except.bind]
  cases interleaved with
  | true =>
    cases Mat.reshape xs n_frames n_channels with
    | ok frames => rfl
    | error e => rfl
  | false =>
    cases Mat.reshape xs n_channels n_frames with
    | ok rows => rfl
    | error e => rfl

theorem fromstring_length {d : DType} {raw_bytes : List UInt8} {xs : List d.Elem}
    (h : fromstring d raw_bytes = .ok xs) : raw_bytes.length = xs.length * d.itemsize := by
  unfold fromstring at h
  split at h
  · case isTrue hmod =>
    cases h
    rw [List.length_map, Blocks.blocks, List.length_map, List.length_range,
      Nat.div_mul_cancel (Nat.dvd_of_mod_eq_zero hmod)]
  · cases h

theorem fromstring_error {d : DType} {raw_bytes : List UInt8} {e : PyError}
    (h : fromstring d raw_bytes = .error e) : ¬d.itemsize ∣ raw_bytes.length := by
  intro hdvd
  rw [fromstring, if_pos (Nat.mod_eq_zero_of_dvd hdvd)] at h
  cases h

theorem dtype_error_iff {sample_width : Nat} :
    (∃ e, dtype sample_width = .error e) ↔ ¬(sample_width = 1 ∨ sample_width = 2) := by
  unfold dtype
  split
  · case isTrue h => simp [h]
  · case isFalse h₁ =>
    split
    · case isTrue h => simp [h]
    · case isFalse h₂ => simp [h₁, h₂]

theorem map_error_iff {α β : Type} {f : α → β} {r : Except PyError α} :
    (∃ e, r.map f = .error e) ↔ ∃ e, r = .error e := by
  cases r with
  | error e => exact iff_of_true ⟨e, rfl⟩ ⟨e, rfl⟩
  | ok a => exact iff_of_false (fun ⟨e, he⟩ => nomatch he) fun ⟨e, he⟩ => nomatch he

theorem interpret_wav_error_iff (d : DType) (raw_bytes : List UInt8) (n_frames n_channels : Nat)
    (interleaved : Bool) :
    (∃ e, interpret_wav raw_bytes n_frames n_channels d.itemsize interleaved = .error e) ↔
      raw_bytes.length ≠ n_frames * n_channels * d.itemsize := by
  cases hread : fromstring d raw_bytes with
  | error e =>
    refine iff_of_true ⟨e, ?_⟩ ?_
    · simp only [interpret_wav, dtype_itemsize, hread, bind, Except.bind]
    · intro hlen
      exact fromstring_error hread ⟨n_frames * n_channels, hlen.trans (Nat.mul_comm _ _)⟩
  | ok xs =>
    have hlen : raw_bytes.length ≠ n_frames * n_channels * d.itemsize ↔
        xs.length ≠ n_frames * n_channels := by
      rw [fromstring_length hread]
      exact not_congr (Nat.mul_left_inj (itemsize_pos d).ne')
    rw [hlen, interpret_wav_of_fromstring hread]
    cases interleaved with
    | true => rw [if_pos rfl, map_error_iff, Mat.reshape_error_iff]
    | false => rw [if_neg Bool.false_ne_true, map_error_iff, Mat.reshape_error_iff, Nat.mul_comm]

/-- **Both layouts are decoded.** For all channel and frame counts and samples of one unsigned or
two signed bytes: a matrix whose samples are packed frame by frame, and one that is packed channel
by channel, are read back. Bytes are refused exactly if they are not as many as there are samples,
or the width is another. -/
theorem interpret_wav_decodes (n_channels n_frames : Nat) :
    (∀ (d : DType) (X : Fin n_channels → Fin n_frames → d.Elem),
      interpret_wav (tobytes d (Mat.mk n_channels n_frames X).T.ravel) n_frames n_channels
        d.itemsize true = .ok ⟨d, n_channels, n_frames, X⟩ ∧
      interpret_wav (tobytes d (Mat.mk n_channels n_frames X).ravel) n_frames n_channels
        d.itemsize false = .ok ⟨d, n_channels, n_frames, X⟩) ∧
    ∀ (raw_bytes : List UInt8) (sample_width : Nat) (interleaved : Bool),
      (∃ e, interpret_wav raw_bytes n_frames n_channels sample_width interleaved = .error e) ↔
        ¬((sample_width = 1 ∨ sample_width = 2) ∧
          raw_bytes.length = n_frames * n_channels * sample_width) := by
  refine ⟨?_, ?_⟩
  · intro d X
    have hframes := Mat.reshape_ravel (Mat.mk n_channels n_frames X).T
    have hrows := Mat.reshape_ravel (Mat.mk n_channels n_frames X)
    constructor
    · rw [interpret_wav_of_fromstring (fromstring_tobytes d _), if_pos rfl]
      exact congrArg (Except.map _) hframes
    · rw [interpret_wav_of_fromstring (fromstring_tobytes d _), if_neg Bool.false_ne_true]
      exact congrArg (Except.map _) hrows
  · intro raw_bytes sample_width interleaved
    by_cases hw : sample_width = 1 ∨ sample_width = 2
    · obtain ⟨d, rfl⟩ : ∃ d : DType, sample_width = d.itemsize := by
        rcases hw with rfl | rfl
        · exact ⟨.uint8, rfl⟩
        · exact ⟨.int16, rfl⟩
      rw [interpret_wav_error_iff, ne_eq, and_iff_right hw]
    · obtain ⟨e, he⟩ := dtype_error_iff.mpr hw
      refine iff_of_true ⟨e, ?_⟩ fun h => hw h.1
      rw [interpret_wav, he]
      rfl

/-- Interleaved frames are read as their channels. -/
theorem interpret_wav_ok (d : DType) {xs : List d.Elem} {n_frames n_channels : Nat}
    (h : xs.length = n_frames * n_channels) :
    ∃ m, interpret_wav (tobytes d xs) n_frames n_channels d.itemsize true = .ok ⟨d, m⟩ ∧
      m.toRows = List.ofFn fun c : Fin n_channels => channel n_channels c xs := by
  cases hm : Mat.reshape xs n_frames n_channels with
  | error e => simp [Mat.reshape, h] at hm
  | ok m =>
    refine ⟨m.T, ?_, Mat.reshape_T_toRows h hm⟩
    simp only [interpret_wav, dtype_itemsize, fromstring_tobytes, hm, bind, Except.bind, if_true]
    rfl

end MovingAverage
end SoundScreen
