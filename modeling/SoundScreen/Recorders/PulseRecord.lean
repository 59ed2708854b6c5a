import Mathlib.Data.List.Basic
import Mathlib.Logic.Function.Iterate
import Mathlib.Tactic.Basic

/-!
# SoundScreen.Recorders.PulseRecord

`SoundRecordPlay/audio.c`, which copies a recording stream of PulseAudio to the standard output.
What `write` and `pa_simple_read` return is a parameter. The texts on `stderr` are left out.

* `loop_write_written`: what `loop_write` writes, and when this is all.
* `main_copied`: what has been written after any number of turns, whatever the calls return.
-/

namespace SoundScreen
namespace Recorders
namespace PulseRecord

def BUFSIZE : Nat := 1024

/-- The system: the `n`-th call of `write` with `size` bytes takes as many of them as it returns, or
fails with a negative number; the `k`-th `pa_simple_read` fills the buffer, or fails. -/
structure System where
  write : Nat → Nat → Int
  write_le : ∀ n size, write n size ≤ size
  pa_simple_new : Bool
  pa_simple_read : Nat → Option { buf : List UInt8 // buf.length = BUFSIZE }

/-- The calls of `write`, and the bytes that they took. -/
structure Output where
  calls : Nat := 0
  written : List UInt8 := []

section

variable (sys : System)

/-! ## The source -/

/-- `write(fd, data, size)`. -/
def write (data : List UInt8) (out : Output) : Int × Output :=
  let r := sys.write out.calls data.length
  (r, ⟨out.calls + 1, out.written ++ data.take r.toNat⟩)

/-- `while (size > 0)`, at most `fuel` turns of it. -/
def write_loop : Nat → List UInt8 → Int → Output → Int × Output
  | 0, _, ret, out => (ret, out)
  | fuel + 1, data, ret, out =>
    if data.length > 0 then
      let (r, out) := write sys data out
      if r < 0 then (r, out)
      else if r = 0 then (ret, out)
      else write_loop fuel (data.drop r.toNat) (ret + r) out
    else (ret, out)

def loop_write (data : List UInt8) (out : Output) : Int × Output :=
  write_loop sys data.length data 0 out

/-- Where `main` is: in its loop, or at `finish` with what it returns. -/
structure State where
  out : Output := {}
  turns : Nat := 0
  finished : Option Int := none

/-- `ret` is what `main` returns when it jumps to `finish`. -/
def ret : Int := 1

/-- One turn of `for (;;)`. -/
def turn (s : State) : State :=
  match s.finished with
  | some _ => s
  | none =>
    match sys.pa_simple_read s.turns with
    | none => { s with finished := some ret }
    | some buf =>
      let (n, out) := loop_write sys buf.val s.out
      if n ≠ BUFSIZE then { s with out := out, finished := some ret }
      else { s with out := out, turns := s.turns + 1 }

/-- `main`, before the first turn. -/
def start : State := if sys.pa_simple_new then {} else { finished := some ret }

/-- `main`, after `n` turns. -/
def main (n : Nat) : State := (turn sys)^[n] (start sys)

/-! ## What is written -/

/-- The block that is read in turn `n`. -/
def block (n : Nat) : List UInt8 := (sys.pa_simple_read n).elim [] Subtype.val

/-- The bytes of the first `n` blocks. -/
def recorded (n : Nat) : List UInt8 := (List.range n).flatMap (block sys)

theorem recorded_succ {n : Nat} {buf : { buf : List UInt8 // buf.length = BUFSIZE }}
    (h : sys.pa_simple_read n = some buf) : recorded sys (n + 1) = recorded sys n ++ buf.val := by
  rw [recorded, List.range_succ, List.flatMap_append, List.flatMap_singleton, block, h]
  rfl

/-- `k` bytes of the data have been taken, and `n` is returned. -/
structure Taken (data : List UInt8) (ret : Int) (out : Output) (k : Nat) (n : Int)
    (out' : Output) : Prop where
  le : k ≤ data.length
  written : out'.written = out.written ++ data.take k
  all : k = data.length → n = ret + k
  less : k < data.length → (n < 0 ∨ n = ret + k) ∧
    ∃ c size, out'.calls = c + 1 ∧ 0 < size ∧ sys.write c size ≤ 0

theorem taken_nothing (ret : Int) (out : Output) : Taken sys [] ret out 0 ret out :=
  ⟨Nat.le_refl 0, (List.append_nil _).symm, fun _ => (Int.add_zero ret).symm, nofun⟩

theorem write_loop_written {fuel : Nat} {data : List UInt8} (hfuel : data.length ≤ fuel)
    (ret : Int) (out : Output) :
    ∃ k, Taken sys data ret out k (write_loop sys fuel data ret out).1
      (write_loop sys fuel data ret out).2 := by
  induction fuel generalizing data ret out with
  | zero =>
    obtain rfl : data = [] := List.length_eq_zero_iff.mp (Nat.le_zero.mp hfuel)
    exact ⟨0, taken_nothing sys ret out⟩
  | succ fuel ih =>
    rw [write_loop]
    split
    · rename_i hpos
      have hle := sys.write_le out.calls data.length
      generalize hr : sys.write out.calls data.length = r at hle
      have hstop : r ≤ 0 → ∃ c size, out.calls + 1 = c + 1 ∧ 0 < size ∧ sys.write c size ≤ 0 :=
        fun h => ⟨_, _, rfl, hpos, hr ▸ h⟩
      simp only [write, hr]
      split
      · rename_i hneg
        refine ⟨0, Nat.zero_le _, ?_, fun h => absurd h (by omega),
          fun _ => ⟨.inl hneg, hstop (Int.le_of_lt hneg)⟩⟩
        simp only [Int.toNat_of_nonpos (Int.le_of_lt hneg)]
      · split
        · rename_i hzero
          refine ⟨0, Nat.zero_le _, ?_, fun h => absurd h (by omega),
            fun _ => ⟨.inr (Int.add_zero ret).symm, hstop (Int.le_of_eq hzero)⟩⟩
          simp only [hzero, Int.toNat_zero]
        · rename_i hneg hne
          have hdrop : (data.drop r.toNat).length = data.length - r.toNat := List.length_drop
          obtain ⟨k, hk⟩ := @ih (data.drop r.toNat) (by omega) (ret + r)
            ⟨out.calls + 1, out.written ++ data.take r.toNat⟩
          have hkle := hk.le
          refine ⟨r.toNat + k, by omega, ?_, fun h => ?_, fun h => ?_⟩
          · rw [hk.written, List.append_assoc, List.take_add]
          · rw [hk.all (by omega)]
            omega
          · exact (hk.less (by omega)).imp_left fun hn => hn.imp_right fun heq => by omega
    · rename_i hnone
      obtain rfl : data = [] := List.length_eq_zero_iff.mp (by omega)
      exact ⟨0, taken_nothing sys ret out⟩

/-- It returns the size if and only if it has written everything; otherwise the last call of `write`
took nothing. -/
theorem loop_write_written (data : List UInt8) (out : Output) :
    ∃ k ≤ data.length, (loop_write sys data out).2.written = out.written ++ data.take k ∧
      ((loop_write sys data out).1 = data.length ↔ k = data.length) ∧
      (k < data.length → ∃ c size, (loop_write sys data out).2.calls = c + 1 ∧ 0 < size ∧
        sys.write c size ≤ 0) := by
  obtain ⟨k, hk⟩ := write_loop_written sys (Nat.le_refl data.length) 0 out
  refine ⟨k, hk.le, hk.written, ⟨fun hn => ?_, fun h => ?_⟩, fun hlt => (hk.less hlt).2⟩
  · by_contra hne
    have hless := (hk.less (Nat.lt_of_le_of_ne hk.le hne)).1
    have hkle := hk.le
    rw [loop_write] at hn
    omega
  · rw [loop_write, hk.all h]
    omega

/-- A call failed: `write` takes nothing of something. -/
def CallFailed (s : State) : Prop :=
  sys.pa_simple_new = false ∨ sys.pa_simple_read s.turns = none ∨
    ∃ c size, s.out.calls = c + 1 ∧ 0 < size ∧ sys.write c size ≤ 0

/-- After `n` turns: the loop runs and has written all blocks; or a call failed, and the last thing
written is a part of a block, or nothing of it. -/
def Copied (n : Nat) (s : State) : Prop :=
  match s.finished with
  | none => s.turns = n ∧ s.out.written = recorded sys n
  | some r => r = 1 ∧ s.turns ≤ n ∧ CallFailed sys s ∧ ∃ k < BUFSIZE,
    s.out.written = recorded sys s.turns ++ (block sys s.turns).take k

theorem start_copied : Copied sys 0 (start sys) := by
  unfold start
  split
  · exact ⟨rfl, rfl⟩
  · rename_i hnew
    exact ⟨rfl, Nat.le_refl 0, .inl (Bool.eq_false_iff.mpr hnew), 0, by decide, rfl⟩

theorem turn_copied {n : Nat} {s : State} (h : Copied sys n s) :
    Copied sys (n + 1) (turn sys s) := by
  unfold Copied at h
  rw [turn]
  split at h
  · rename_i hrun
    obtain ⟨rfl, hwritten⟩ := h
    simp only [hrun]
    split
    · rename_i hread
      refine ⟨rfl, Nat.le_succ _, .inr (.inl hread), 0, by decide, ?_⟩
      rw [List.take_zero, List.append_nil]
      exact hwritten
    · rename_i buf hread
      have hblock : block sys s.turns = buf.val := by
        rw [block, hread]
        rfl
      obtain ⟨k, hle, hout, hall, hfail⟩ := loop_write_written sys buf.val s.out
      have hlength := buf.property
      rw [hlength] at hle hall hfail
      split
      · rename_i hless
        have hlt : k < BUFSIZE := Nat.lt_of_le_of_ne hle fun h => hless (hall.mpr h)
        refine ⟨rfl, Nat.le_succ _, .inr (.inr (hfail hlt)), k, hlt, ?_⟩
        rw [← hwritten, hblock]
        exact hout
      · rename_i hwhole
        refine ⟨rfl, ?_⟩
        have hk := hall.mp (not_not.mp hwhole)
        rw [recorded_succ sys hread, ← hwritten, hout, List.take_of_length_le (by omega)]
  · rename_i r hend
    simp only [hend]
    unfold Copied
    simp only [hend]
    obtain ⟨hr, hturns, hrest⟩ := h
    exact ⟨hr, Nat.le_succ_of_le hturns, hrest⟩

/-- **The copy.** Whatever the calls return, short writes and failures at any place: as long as
`main` runs, the standard output is the recording, all blocks in order; it returns only when a call
failed, then always 1, and what it has written are whole blocks and at most a part of the next. -/
theorem main_copied (n : Nat) : Copied sys n (main sys n) := by
  induction n with
  | zero => exact start_copied sys
  | succ n ih =>
    rw [main, Function.iterate_succ_apply']
    exact turn_copied sys ih

end

end PulseRecord
end Recorders
end SoundScreen
