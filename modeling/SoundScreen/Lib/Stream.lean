import Mathlib.Data.List.Basic
import Mathlib.Tactic.Basic

/-!
# SoundScreen.Lib.Stream

A file of bytes with a position, read by `fread` and written by `write`, neither of which is cut
short.

* `while_fread_rule`: the invariants of a loop that reads blocks until nothing is left.
* `write_of_le`: writing replaces as many bytes as are written, as far as there are any.
-/

namespace SoundScreen

structure Stream where
  contents : List UInt8
  pos : Nat
  deriving DecidableEq

namespace Stream

/-- A file that has just been opened. -/
def opened (contents : List UInt8) : Stream := ⟨contents, 0⟩

def rest (s : Stream) : List UInt8 := s.contents.drop s.pos

/-- From the start of the file. -/
def seek (pos : Nat) (s : Stream) : Stream := { s with pos := pos }

def seek_end (s : Stream) : Stream := { s with pos := s.contents.length }

/-- At most `n` bytes. -/
def fread (n : Nat) (s : Stream) : List UInt8 × Stream :=
  let bytes := s.rest.take n
  (bytes, { s with pos := s.pos + bytes.length })

/-- Between the end and a position after it, zeros are written. -/
def write (bytes : List UInt8) (s : Stream) : Stream where
  contents := (s.contents.rightpad s.pos 0).take s.pos ++ bytes ++
    s.contents.drop (s.pos + bytes.length)
  pos := s.pos + bytes.length

/-! ## Reading -/

@[simp] theorem rest_seek_zero (s : Stream) : (s.seek 0).rest = s.contents := rfl

theorem fread_bytes (n : Nat) (s : Stream) : (s.fread n).1 = s.rest.take n := rfl

theorem fread_rest (n : Nat) (s : Stream) : (s.fread n).2.rest = s.rest.drop n := by
  change s.contents.drop (s.pos + (s.rest.take n).length) = (s.contents.drop s.pos).drop n
  rw [← List.drop_drop]
  change s.rest.drop (s.rest.take n).length = s.rest.drop n
  by_cases h : n ≤ s.rest.length
  · rw [List.length_take_of_le h]
  · have hlen : s.rest.length ≤ n := by omega
    rw [List.take_of_length_le hlen, List.drop_of_length_le (Nat.le_refl s.rest.length),
      List.drop_of_length_le hlen]

theorem fread_append (n : Nat) (s : Stream) : (s.fread n).1 ++ (s.fread n).2.rest = s.rest := by
  rw [fread_rest]
  exact List.take_append_drop n s.rest

theorem fread_rest_length {n : Nat} {s : Stream} (h : 0 < (s.fread n).1.length) :
    (s.fread n).2.rest.length < s.rest.length := by
  have hlen := congrArg List.length (fread_append n s)
  rw [List.length_append] at hlen
  omega

variable {σ : Type}

/-- `while ((count = fread(buffer, 1, n, s)) > 0)`: `body` is given what was read. -/
def while_fread (n : Nat) (body : List UInt8 → σ → σ) (s : Stream) (state : σ) : Stream × σ :=
  let r := s.fread n
  if 0 < r.1.length then while_fread n body r.2 (body r.1 state) else (r.2, state)
termination_by s.rest.length
decreasing_by exact fread_rest_length ‹_›

/-- What holds of the bytes read so far and the state holds of all bytes after the loop, if each
turn keeps it. Before each turn only whole blocks have been read. -/
theorem while_fread_rule (Inv : List UInt8 → σ → Prop) {n : Nat} {body : List UInt8 → σ → σ}
    (hn : 0 < n)
    (hbody : ∀ read block state, Inv read state → n ∣ read.length → block ≠ [] →
      block.length ≤ n → Inv (read ++ block) (body block state))
    {s : Stream} {state : σ} (h : Inv [] state) : Inv s.rest (while_fread n body s state).2 := by
  -- every block but the last has `n` bytes, so the bytes read are whole blocks until the end
  have hloop : ∀ s state read, Inv read state → (s.rest ≠ [] → n ∣ read.length) →
      Inv (read ++ s.rest) (while_fread n body s state).2 := by
    intro s state
    induction s, state using while_fread.induct n body with
    | case1 s state r hpos ih =>
      intro read hinv hdvd
      have hne : r.1 ≠ [] := List.ne_nil_of_length_pos hpos
      have hrest : s.rest ≠ [] := by
        intro hnil
        rw [fread_bytes, hnil, List.take_nil] at hne
        exact hne rfl
      rw [while_fread, if_pos hpos]
      have hle : r.1.length ≤ n := List.length_take_le n s.rest
      have hinv' := hbody read r.1 state hinv (hdvd hrest) hne hle
      have hih := ih (read ++ r.1) hinv' ?_
      · rwa [List.append_assoc, fread_append] at hih
      · intro hmore
        have hfull : r.1.length = n := by
          refine List.length_take_of_le ?_
          by_contra hshort
          exact hmore (by rw [fread_rest]; exact List.drop_of_length_le (by omega))
        rw [List.length_append, hfull]
        exact Nat.dvd_add (hdvd hrest) (Nat.dvd_refl n)
    | case2 s state r hpos =>
      intro read hinv hdvd
      rw [while_fread, if_neg hpos]
      have hnil : s.rest = [] := by
        have hlen : (s.rest.take n).length = 0 := Nat.eq_zero_of_not_pos hpos
        rw [List.length_take] at hlen
        exact List.eq_nil_of_length_eq_zero (by omega)
      rw [hnil, List.append_nil]
      exact hinv
  exact hloop s state [] h fun _ => Nat.dvd_zero n

/-! ## Writing -/

theorem write_of_le {s : Stream} (h : s.pos ≤ s.contents.length) (bytes : List UInt8) :
    s.write bytes = ⟨s.contents.take s.pos ++ bytes ++ s.contents.drop (s.pos + bytes.length),
      s.pos + bytes.length⟩ := by
  unfold write
  rw [List.rightpad, Nat.sub_eq_zero_of_le h, List.replicate_zero, List.append_nil]

theorem write_at_end {s : Stream} (h : s.pos = s.contents.length) (bytes : List UInt8) :
    s.write bytes = ⟨s.contents ++ bytes, s.pos + bytes.length⟩ := by
  rw [write_of_le (Nat.le_of_eq h), h, List.take_length, List.drop_of_length_le (by omega),
    List.append_nil]

theorem write_nil {s : Stream} (h : s.pos ≤ s.contents.length) : s.write [] = s := by
  rw [write_of_le h, List.append_nil, List.length_nil, Nat.add_zero, List.take_append_drop]

theorem write_pos_le {s : Stream} (h : s.pos ≤ s.contents.length) (bytes : List UInt8) :
    (s.write bytes).pos ≤ (s.write bytes).contents.length := by
  rw [write_of_le h]
  change s.pos + bytes.length ≤ (s.contents.take s.pos ++ bytes ++ _).length
  rw [List.length_append, List.length_append, List.length_take_of_le h]
  exact Nat.le_add_right _ _

theorem write_write {s : Stream} (h : s.pos ≤ s.contents.length) (xs ys : List UInt8) :
    (s.write xs).write ys = s.write (xs ++ ys) := by
  have hbefore : (s.contents.take s.pos ++ xs).length = s.pos + xs.length := by
    rw [List.length_append, List.length_take_of_le h]
  rw [write_of_le h, write_of_le h, write_of_le]
  · rw [List.take_left' hbefore, ← List.drop_drop, List.drop_left' hbefore, List.drop_drop,
      List.length_append, Nat.add_assoc]
    simp only [List.append_assoc]
  · have hpos := write_pos_le h xs
    rwa [write_of_le h] at hpos

/-- A loop whose turns all write at the end. -/
theorem foldl_at_end {α : Type} {step : Stream → α → Stream} {f : α → List UInt8}
    (hstep : ∀ s a, s.pos = s.contents.length →
      step s a = ⟨s.contents ++ f a, s.pos + (f a).length⟩)
    (l : List α) {s : Stream} (h : s.pos = s.contents.length) :
    l.foldl step s = ⟨s.contents ++ l.flatMap f, s.pos + (l.flatMap f).length⟩ := by
  induction l generalizing s with
  | nil =>
    rw [List.flatMap_nil, List.append_nil]
    rfl
  | cons a l ih =>
    rw [List.foldl_cons, hstep s a h, ih (by rw [List.length_append, h]), List.flatMap_cons,
      List.append_assoc, List.length_append, Nat.add_assoc]

end Stream
end SoundScreen
