import Mathlib.Algebra.Group.Nat.Defs
import Mathlib.Data.Nat.Basic
import Mathlib.Tactic.Basic

/-!
# SoundScreen.Lib.LittleEndian

Numbers as bytes, least significant byte first: `n` bytes hold every number below `256 ^ n`
(`word_bytes`).
-/

namespace SoundScreen
namespace LittleEndian

def word : List UInt8 → Nat
  | [] => 0
  | b :: bs => b.toNat + 256 * word bs

theorem word_lt (bs : List UInt8) : word bs < 256 ^ bs.length := by
  induction bs with
  | nil => exact Nat.one_pos
  | cons b bs ih =>
    have hb := b.toNat_lt
    rw [word, List.length_cons, Nat.pow_succ]
    omega

/-- The `n` low bytes of `v`. -/
def bytes : Nat → Nat → List UInt8
  | 0, _ => []
  | n + 1, v => UInt8.ofNat v :: bytes n (v / 256)

@[simp] theorem bytes_length (n v : Nat) : (bytes n v).length = n := by
  induction n generalizing v with
  | zero => rfl
  | succ n ih => rw [bytes, List.length_cons, ih]

theorem word_bytes {n v : Nat} (h : v < 256 ^ n) : word (bytes n v) = v := by
  induction n generalizing v with
  | zero =>
    rw [Nat.pow_zero] at h
    rw [bytes, word]
    omega
  | succ n ih =>
    have hdiv : v / 256 < 256 ^ n := by
      rw [Nat.pow_succ] at h
      omega
    rw [bytes, word, ih hdiv, UInt8.toNat_ofNat']
    omega

theorem bytes_congr {n v w : Nat} (h : v % 256 ^ n = w % 256 ^ n) : bytes n v = bytes n w := by
  induction n generalizing v w with
  | zero => rfl
  | succ n ih =>
    rw [Nat.pow_succ'] at h
    have hlow : v % 256 = w % 256 := by
      rw [← Nat.mod_mul_right_mod v 256 (256 ^ n), h, Nat.mod_mul_right_mod]
    have hrest : v / 256 % 256 ^ n = w / 256 % 256 ^ n := by
      rw [← Nat.mod_mul_right_div_self, h, Nat.mod_mul_right_div_self]
    have hbyte : UInt8.ofNat v = UInt8.ofNat w := by
      refine UInt8.toNat_inj.mp ?_
      rw [UInt8.toNat_ofNat', UInt8.toNat_ofNat']
      exact hlow
    rw [bytes, bytes, hbyte, ih hrest]

theorem word_bytes_mod (n v : Nat) : word (bytes n v) = v % 256 ^ n := by
  have hlt : v % 256 ^ n < 256 ^ n := Nat.mod_lt v (Nat.pow_pos (by decide))
  rw [← bytes_congr (Nat.mod_mod v (256 ^ n)), word_bytes hlt]

end LittleEndian
end SoundScreen
