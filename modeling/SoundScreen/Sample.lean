import Mathlib.Algebra.Group.Nat.Defs
import Mathlib.Data.Int.Basic

/-!
# SoundScreen.Sample

What the programs of the repository share: `SAMPLE`, the 32-bit sample of `paInt32`, the wrap of
`uint32_t` counters, and the two PortAudio callbacks as threads.
-/

namespace SoundScreen

/-- `typedef int32_t SAMPLE`. -/
abbrev SAMPLE := Int32

/-- `uint32_t` arithmetic wraps modulo `2^32`. -/
def u32 (n : Nat) : Nat := n % 2 ^ 32

theorem u32_of_lt {n : Nat} (h : n < 2 ^ 32) : u32 n = n := Nat.mod_eq_of_lt h

inductive Thread where
  | record
  | play
  deriving DecidableEq, Repr

end SoundScreen
