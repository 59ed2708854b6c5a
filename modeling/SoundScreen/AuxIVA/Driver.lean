import SoundScreen.Lib.Blocks
import SoundScreen.Lib.LittleEndian

/-!
# SoundScreen.AuxIVA.Driver

`main` of `main.cpp` after the header: the set-up block and the loop over the blocks of the data
section, on the bytes of its buffers. The buffers are declared as arrays of pointers to `int16_t`,
so `fread` counts pointers, and the second `memcpy` of each block reads from the address that an
element of the buffer holds.

* `main_calls`: a run that is not cut off calls `unmix` once for each successful `fread`.
* `main_set_up`: the first of these calls is handed buffers that were never written.
* `feeds_iff`: so the samples of the file are handed over only if there are none.
-/

namespace SoundScreen
namespace AuxIVA
namespace Driver

def SET_UP_READ_SIZE : Nat := 4096

def READ_SIZE : Nat := 1024

def SET_UP_BUFFER_SIZE : Nat := READ_SIZE / 2

def BUFFER_SIZE : Nat := READ_SIZE / 2

/-- A byte of memory, `none` while its value is indeterminate. -/
abbrev Cell := Option UInt8

structure Buffers where
  set_up_buffer : List Cell
  set_up_l_buf : List Cell
  set_up_r_buf : List Cell
  buffer : List Cell
  l_buf : List Cell
  r_buf : List Cell

/-- `sizeof(buffer[0])`, and the bytes from the address on that a pointer holds, `none` where they
cannot be read. -/
structure Platform where
  sizeofPointer : Nat
  two_le : 2 ≤ sizeofPointer
  memory : Buffers → List Cell → Option (Nat → Cell)

structure Call where
  setup : Bool
  l_chan : List Cell
  r_chan : List Cell

/-- The results of `fread` and the calls of `unmix`. `exit` is `none` when a read of memory that
is not there ends the run. -/
structure Run where
  reads : List Nat
  calls : List Call
  exit : Option Int

/-! ## The source -/

structure Read where
  count : Nat
  buffer : List Cell
  file : List UInt8

/-- `fread(buffer, size, count, file)`. An element of which only a part is read is indeterminate
and not counted. -/
def fread (size count : Nat) (file : List UInt8) (buffer : List Cell) : Read :=
  let read := file.take (size * count)
  let whole := size * (read.length / size)
  { count := read.length / size
    buffer := (read.take whole).map some ++ List.replicate (read.length - whole) none ++
      buffer.drop read.length
    file := file.drop (size * count) }

def memcpy (dst src : List Cell) (n : Nat) : List Cell := src.take n ++ dst.drop n

/-- `memcpy(dst, buffer[i], n)`. -/
def memcpy_pointer (p : Platform) (b : Buffers) (dst buffer : List Cell) (i n : Nat) :
    Option (List Cell) := do
  let src ← p.memory b ((buffer.drop (p.sizeofPointer * i)).take p.sizeofPointer)
  return memcpy dst ((List.range n).map src) n

def Buffers.declared (p : Platform) : Buffers where
  set_up_buffer := List.replicate (p.sizeofPointer * SET_UP_READ_SIZE) none
  set_up_l_buf := List.replicate (p.sizeofPointer * SET_UP_BUFFER_SIZE) none
  set_up_r_buf := List.replicate (p.sizeofPointer * SET_UP_BUFFER_SIZE) none
  buffer := List.replicate (p.sizeofPointer * READ_SIZE) none
  l_buf := List.replicate (p.sizeofPointer * BUFFER_SIZE) none
  r_buf := List.replicate (p.sizeofPointer * BUFFER_SIZE) none

theorem fread_file_length {size count : Nat} {file : List UInt8} {buffer : List Cell}
    (h : 0 < (fread size count file buffer).count) :
    (fread size count file buffer).file.length < file.length := by
  have hread : 0 < (file.take (size * count)).length := by
    by_contra hread
    simp only [fread, Nat.eq_zero_of_not_pos hread, Nat.zero_div] at h
    exact absurd h (lt_irrefl 0)
  rw [List.length_take] at hread
  simp only [fread, List.length_drop]
  omega

/-- The `while` loop and what follows it. -/
def read_blocks (p : Platform) (file : List UInt8) (b : Buffers) : Run :=
  let r := fread p.sizeofPointer READ_SIZE file b.buffer
  if 0 < r.count then
    let b := { b with
      buffer := r.buffer
      l_buf := memcpy b.l_buf r.buffer (2 * BUFFER_SIZE) }
    match memcpy_pointer p b b.r_buf b.buffer BUFFER_SIZE (2 * BUFFER_SIZE) with
    | none => { reads := [r.count], calls := [], exit := none }
    | some r_buf =>
      let rest := read_blocks p r.file { b with r_buf := r_buf }
      { rest with
        reads := r.count :: rest.reads
        calls := { setup := false, l_chan := b.l_buf, r_chan := r_buf } :: rest.calls }
  else
    { reads := [r.count], calls := [], exit := some 0 }
termination_by file.length
decreasing_by exact fread_file_length ‹_›

/-- The set-up call is handed `l_buf` and `r_buf`, not the buffers filled before it. -/
def main (p : Platform) (data : List UInt8) : Run :=
  let b := Buffers.declared p
  let r := fread p.sizeofPointer SET_UP_READ_SIZE data b.set_up_buffer
  if 0 < r.count then
    let b := { b with
      set_up_buffer := r.buffer
      set_up_l_buf := memcpy b.set_up_l_buf r.buffer (2 * SET_UP_BUFFER_SIZE) }
    match memcpy_pointer p b b.set_up_r_buf b.set_up_buffer SET_UP_BUFFER_SIZE
      (2 * SET_UP_BUFFER_SIZE) with
    | none => { reads := [r.count], calls := [], exit := none }
    | some set_up_r_buf =>
      let rest := read_blocks p r.file { b with set_up_r_buf := set_up_r_buf }
      { rest with
        reads := r.count :: rest.reads
        calls := { setup := true, l_chan := b.l_buf, r_chan := b.r_buf } :: rest.calls }
  else
    { reads := [r.count], calls := [], exit := some (-1) }

/-! ## Samples -/

/-- The sample in two bytes, if both are determinate. -/
def sample (b : List Cell) : Option Int16 :=
  (b.mapM id).map fun bytes => Int16.ofNat (LittleEndian.word bytes)

def samples (cells : List Cell) : List (Option Int16) :=
  (Blocks.blocks 2 cells).map sample

def evens {α : Type} : List α → List α
  | [] => []
  | [x] => [x]
  | x :: _ :: xs => x :: evens xs

def odds {α : Type} (xs : List α) : List α := evens xs.tail

/-- The samples of the data section reach `unmix` once each, the even-numbered ones on the left,
in calls that each follow a successful `fread`, the first as set-up. -/
structure FeedsEverySample (data : List UInt8) (r : Run) : Prop where
  left : r.calls.flatMap (fun c => samples c.l_chan) = evens (samples (data.map some))
  right : r.calls.flatMap (fun c => samples c.r_chan) = odds (samples (data.map some))
  once : r.calls.length = (r.reads.filter (0 < ·)).length
  set_up : ∀ i c, r.calls[i]? = some c → (c.setup = true ↔ i = 0)

theorem mem_of_mem_evens {α : Type} {x : α} {xs : List α} (h : x ∈ evens xs) : x ∈ xs := by
  induction xs using evens.induct with
  | case1 => exact h
  | case2 y => exact h
  | case3 y z xs ih =>
    rcases List.mem_cons.mp h with rfl | h
    · exact List.mem_cons_self
    · exact List.mem_cons_of_mem _ (List.mem_cons_of_mem _ (ih h))

theorem evens_ne_nil {α : Type} {xs : List α} (h : xs ≠ []) : evens xs ≠ [] := by
  match xs with
  | [] => exact absurd rfl h
  | [x] => exact List.cons_ne_nil _ _
  | x :: _ :: _ => exact List.cons_ne_nil _ _

@[simp] theorem samples_length (cells : List Cell) : (samples cells).length = cells.length / 2 := by
  simp [samples, Blocks.blocks]

theorem sample_map_some (bytes : List UInt8) :
    sample (bytes.map some) = some (Int16.ofNat (LittleEndian.word bytes)) := by
  have h : (bytes.map some).mapM id = some bytes := by
    induction bytes with
    | nil => rfl
    | cons b bytes ih => simp [ih]
  rw [sample, h, Option.map_some]

theorem samples_data_ne_none {data : List UInt8} : none ∉ samples (data.map some) := by
  intro h
  obtain ⟨block, hblock, hnone⟩ := List.mem_map.mp h
  obtain ⟨i, -, rfl⟩ := List.mem_map.mp hblock
  rw [← List.map_drop, ← List.map_take, sample_map_some] at hnone
  cases hnone

theorem samples_replicate_none {n : Nat} {v : Option Int16}
    (h : v ∈ samples (List.replicate n none)) : v = none := by
  obtain ⟨block, hblock, rfl⟩ := List.mem_map.mp h
  obtain ⟨i, hi, rfl⟩ := List.mem_map.mp hblock
  rw [List.length_replicate, List.mem_range] at hi
  rw [List.drop_replicate, List.take_replicate]
  have hpos : 0 < min 2 (n - i * 2) := by omega
  obtain ⟨m, hm⟩ := Nat.exists_eq_succ_of_ne_zero (Nat.ne_of_gt hpos)
  rw [hm, List.replicate_succ]
  rfl

/-! ## Runs -/

theorem read_blocks_calls (p : Platform) (file : List UInt8) (b : Buffers) :
    (read_blocks p file b).exit ≠ none → (read_blocks p file b).calls.length =
      ((read_blocks p file b).reads.filter (0 < ·)).length := by
  fun_induction read_blocks p file b with
  | case1 file b r h b' hcopy => exact fun hexit => absurd rfl hexit
  | case2 file b r h b' r_buf hcopy rest ih =>
    intro hexit
    simpa [h] using ih hexit
  | case3 file b r h => simp [h]

theorem read_blocks_setup (p : Platform) (file : List UInt8) (b : Buffers) :
    ∀ c ∈ (read_blocks p file b).calls, c.setup = false := by
  fun_induction read_blocks p file b with
  | case1 file b r h b' hcopy => simp
  | case2 file b r h b' r_buf hcopy rest ih => exact List.forall_mem_cons.mpr ⟨rfl, ih⟩
  | case3 file b r h => simp

theorem fread_count_pos {size count : Nat} (hs : 0 < size) (hc : 0 < count) (file : List UInt8)
    (buffer : List Cell) : 0 < (fread size count file buffer).count ↔ size ≤ file.length := by
  have hle : size ≤ size * count := Nat.le_mul_of_pos_right size hc
  simp only [fread, List.length_take, Nat.div_pos_iff]
  omega

theorem sizeofPointer_pos (p : Platform) : 0 < p.sizeofPointer := by
  have h := p.two_le
  omega

/-- The set-up block ends the run, or the loop follows. -/
theorem main_cases (p : Platform) (data : List UInt8) :
    (data.length < p.sizeofPointer ∧
      main p data = { reads := [0], calls := [], exit := some (-1) }) ∨
    (p.sizeofPointer ≤ data.length ∧
      ∃ count, main p data = { reads := [count], calls := [], exit := none }) ∨
    (p.sizeofPointer ≤ data.length ∧
      ∃ count file b, 0 < count ∧ main p data =
        { reads := count :: (read_blocks p file b).reads
          calls := { setup := true
                     l_chan := (Buffers.declared p).l_buf
                     r_chan := (Buffers.declared p).r_buf } :: (read_blocks p file b).calls
          exit := (read_blocks p file b).exit }) := by
  have hpos := fread_count_pos (sizeofPointer_pos p) (show 0 < SET_UP_READ_SIZE by decide) data
    (Buffers.declared p).set_up_buffer
  unfold main
  by_cases h : p.sizeofPointer ≤ data.length
  · refine .inr ?_
    simp only [hpos.mpr h, if_true]
    split
    · exact .inl ⟨h, _, rfl⟩
    · exact .inr ⟨h, _, _, _, hpos.mpr h, rfl⟩
  · refine .inl ⟨Nat.not_le.mp h, ?_⟩
    have hcount : ¬0 < (fread p.sizeofPointer SET_UP_READ_SIZE data
      (Buffers.declared p).set_up_buffer).count := fun hc => h (hpos.mp hc)
    simp only [hcount, if_false]
    rw [Nat.eq_zero_of_not_pos hcount]

/-- A run that is not cut off calls `unmix` once for each successful `fread`. -/
theorem main_calls {p : Platform} {data : List UInt8} (h : (main p data).exit ≠ none) :
    (main p data).calls.length = ((main p data).reads.filter (0 < ·)).length := by
  rcases main_cases p data with ⟨-, hrun⟩ | ⟨-, count, hrun⟩ | ⟨-, count, file, b, hcount, hrun⟩
  · rw [hrun]
    rfl
  · rw [hrun] at h
    exact absurd rfl h
  · rw [hrun] at h ⊢
    simpa [hcount] using read_blocks_calls p file b h

/-- The set-up call is handed no byte of the file. -/
theorem main_set_up {p : Platform} {data : List UInt8} {c : Call} (h : c ∈ (main p data).calls)
    (hs : c.setup = true) : ∀ cell ∈ c.l_chan ++ c.r_chan, cell = none := by
  rcases main_cases p data with ⟨-, hrun⟩ | ⟨-, count, hrun⟩ | ⟨-, count, file, b, -, hrun⟩
  · rw [hrun] at h
    cases h
  · rw [hrun] at h
    cases h
  · rw [hrun] at h
    rcases List.mem_cons.mp h with rfl | h
    · intro cell hcell
      rcases List.mem_append.mp hcell with hcell | hcell
      · exact List.eq_of_mem_replicate hcell
      · exact List.eq_of_mem_replicate hcell
    · rw [read_blocks_setup p file b c h] at hs
      cases hs

theorem samples_ne_nil {cells : List Cell} (h : 2 ≤ cells.length) : samples cells ≠ [] := by
  intro hnil
  have hlen := samples_length cells
  rw [hnil, List.length_nil] at hlen
  omega

/-- The left buffers of a run that meets a sample are not the even-numbered samples. -/
theorem main_left {p : Platform} {data : List UInt8} (h : 2 ≤ data.length) :
    (main p data).calls.flatMap (fun c => samples c.l_chan) ≠
      evens (samples (data.map some)) := by
  have hdata : evens (samples (data.map some)) ≠ [] :=
    evens_ne_nil (samples_ne_nil (by rwa [List.length_map]))
  intro hleft
  rcases main_cases p data with ⟨-, hrun⟩ | ⟨-, count, hrun⟩ | ⟨-, count, file, b, -, hrun⟩
  · rw [hrun] at hleft
    exact hdata hleft.symm
  · rw [hrun] at hleft
    exact hdata hleft.symm
  · rw [hrun, List.flatMap_cons] at hleft
    have hbuf : samples (Buffers.declared p).l_buf ≠ [] := by
      refine samples_ne_nil ?_
      rw [Buffers.declared, List.length_replicate]
      exact le_trans p.two_le (Nat.le_mul_of_pos_right _ (by decide))
    obtain ⟨v, hv⟩ := List.exists_mem_of_ne_nil _ hbuf
    have hmem := List.mem_append_left
      ((read_blocks p file b).calls.flatMap fun c => samples c.l_chan) hv
    rw [hleft, samples_replicate_none hv] at hmem
    exact samples_data_ne_none (mem_of_mem_evens hmem)

theorem main_short {p : Platform} {data : List UInt8} (h : data.length < 2) :
    FeedsEverySample data (main p data) := by
  have hlt : data.length < p.sizeofPointer := lt_of_lt_of_le h p.two_le
  have hsamples : samples (data.map some) = [] := by
    rw [← List.length_eq_zero_iff, samples_length, List.length_map]
    omega
  rcases main_cases p data with ⟨-, hrun⟩ | ⟨hle, -⟩ | ⟨hle, -⟩
  · rw [hrun]
    refine ⟨?_, ?_, rfl, ?_⟩
    · rw [hsamples]
      rfl
    · rw [hsamples]
      rfl
    · intro i c hc
      cases hc
  · omega
  · omega

/-- The driver feeds the samples of a file exactly when the file has none. -/
theorem feeds_iff (p : Platform) (data : List UInt8) :
    FeedsEverySample data (main p data) ↔ data.length < 2 := by
  constructor
  · intro hfeeds
    by_contra h
    exact main_left (Nat.not_lt.mp h) hfeeds.left
  · exact main_short

/-- Pointers of eight bytes, and zeros wherever they point. -/
def zeros : Platform := ⟨8, by decide, fun _ _ => some fun _ => some 0⟩

/-- Two frames, with the samples 1 and 2 on the left. -/
theorem two_frames_lost : ¬FeedsEverySample [1, 0, 3, 0, 2, 0, 4, 0]
    (main zeros [1, 0, 3, 0, 2, 0, 4, 0]) := fun hfeeds => main_left (by decide) hfeeds.left

end Driver
end AuxIVA
end SoundScreen
