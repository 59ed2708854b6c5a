import Mathlib.Tactic.Basic

/-!
# SoundScreen.Lib.Buffer

Buffers of a fixed size. What reaches behind the end of one is `none`.

* `load_ok`, `store_ok`: inside the buffer both succeed.
* `write_in`, `write_out`: what is read back is what was written, and the rest is as it was.
-/

namespace SoundScreen

/-- `size` cells; what lies behind them has no meaning. -/
structure Buffer (α : Type*) where
  size : Nat
  cell : Nat → α

namespace Buffer

variable {α : Type*}

/-- The `n` cells from `p` on. -/
def load (b : Buffer α) (p n : Nat) : Option (Nat → α) :=
  if p + n ≤ b.size then some fun i => b.cell (p + i) else none

/-- The first `n` values of `v` in the cells from `p` on. -/
def write (b : Buffer α) (p n : Nat) (v : Nat → α) : Buffer α :=
  { b with cell := fun a => if p ≤ a ∧ a < p + n then v (a - p) else b.cell a }

def store (b : Buffer α) (p n : Nat) (v : Nat → α) : Option (Buffer α) :=
  if p + n ≤ b.size then some (b.write p n v) else none

/-- `memcpy` from another buffer. -/
def memcpy (dst : Buffer α) (p : Nat) (src : Buffer α) (q n : Nat) : Option (Buffer α) := do
  let v ← src.load q n
  dst.store p n v

/-- `memmove` within one buffer: where the parts overlap, what is read is what was there before. It
stands for a `memcpy` within one buffer too, of which the standard says nothing when they
overlap. -/
def move (b : Buffer α) (p q n : Nat) : Option (Buffer α) := b.memcpy p b q n

/-- `resize` of a vector of numbers. -/
def resize [Zero α] (b : Buffer α) (size : Nat) : Buffer α :=
  ⟨size, fun a => if a < b.size then b.cell a else 0⟩

theorem load_ok {b : Buffer α} {p n : Nat} (h : p + n ≤ b.size) :
    b.load p n = some fun i => b.cell (p + i) :=
  if_pos h

theorem store_ok {b : Buffer α} {p n : Nat} (v : Nat → α) (h : p + n ≤ b.size) :
    b.store p n v = some (b.write p n v) :=
  if_pos h

theorem store_size {b b' : Buffer α} {p n : Nat} {v : Nat → α} (h : b.store p n v = some b') :
    b'.size = b.size := by
  rw [store] at h
  split at h
  · cases h
    rfl
  · cases h

theorem memcpy_size {dst dst' src : Buffer α} {p q n : Nat}
    (h : dst.memcpy p src q n = some dst') : dst'.size = dst.size := by
  obtain ⟨v, -, hstore⟩ := Option.bind_eq_some_iff.mp h
  exact store_size hstore

theorem memcpy_ok {dst src : Buffer α} {p q n : Nat} (hq : q + n ≤ src.size)
    (hp : p + n ≤ dst.size) :
    dst.memcpy p src q n = some (dst.write p n fun i => src.cell (q + i)) := by
  rw [memcpy, load_ok hq]
  exact store_ok _ hp

theorem move_ok {b : Buffer α} {p q n : Nat} (hq : q + n ≤ b.size) (hp : p + n ≤ b.size) :
    b.move p q n = some (b.write p n fun i => b.cell (q + i)) :=
  memcpy_ok hq hp

@[simp] theorem write_size (b : Buffer α) (p n : Nat) (v : Nat → α) :
    (b.write p n v).size = b.size :=
  rfl

theorem write_in (b : Buffer α) {p n a : Nat} (v : Nat → α) (hle : p ≤ a) (hlt : a < p + n) :
    (b.write p n v).cell a = v (a - p) :=
  if_pos ⟨hle, hlt⟩

theorem write_out (b : Buffer α) {p n a : Nat} (v : Nat → α) (h : a < p ∨ p + n ≤ a) :
    (b.write p n v).cell a = b.cell a :=
  if_neg (by omega)

/-- Writing the next samples behind those a buffer holds. -/
theorem write_append (b : Buffer α) {x v : Nat → α} {s p n : Nat}
    (hcells : ∀ a < p, b.cell a = x (s + a)) (hv : ∀ k < n, v k = x (s + (p + k))) :
    ∀ a < p + n, (b.write p n v).cell a = x (s + a) := by
  intro a ha
  by_cases hold : a < p
  · rw [write_out _ _ (.inl hold), hcells a hold]
  · rw [write_in _ _ (by omega) ha, hv _ (by omega), Nat.add_sub_cancel' (by omega)]

theorem write_none (b : Buffer α) (p : Nat) (v : Nat → α) : b.write p 0 v = b := by
  unfold write
  congr
  funext a
  exact if_neg (by omega)

theorem resize_cell [Zero α] (b : Buffer α) (size : Nat) {a : Nat} (h : a < b.size) :
    (b.resize size).cell a = b.cell a :=
  if_pos h

end Buffer
end SoundScreen
