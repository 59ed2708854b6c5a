import Mathlib.Data.List.Basic
import Mathlib.Tactic.Basic

/-!
# SoundScreen.Lib.Chunks

Filters that are given a stream of numbers in chunks and give as many numbers back for each.

* `run_spec`: if every chunk keeps an invariant and comes back filtered, so does the whole stream,
  however it is cut into chunks.
-/

namespace SoundScreen
namespace Chunks

variable {σ α β : Type*}

/-- What comes back for each chunk; `none` when a chunk fails. -/
def run (step : σ → List α → Option (σ × List β)) : σ → List (List α) → Option (σ × List (List β))
  | s, [] => some (s, [])
  | s, chunk :: chunks => do
    let (s, out) ← step s chunk
    let (s, outs) ← run step s chunks
    return (s, out :: outs)

/-- The chunk is the part of `x` from `t` on. -/
def PartOf (x : Nat → α) (t : Nat) (chunk : List α) : Prop :=
  ∀ k < chunk.length, chunk[k]? = some (x (t + k))

theorem PartOf.append {x : Nat → α} {t : Nat} {xs ys : List α} (h : PartOf x t (xs ++ ys)) :
    PartOf x t xs ∧ PartOf x (t + xs.length) ys := by
  constructor
  · intro k hk
    have hleft := h k (by rw [List.length_append]; omega)
    rwa [List.getElem?_append_left hk] at hleft
  · intro k hk
    have hright := h (xs.length + k) (by rw [List.length_append]; omega)
    rw [List.getElem?_append_right (Nat.le_add_right _ _), Nat.add_sub_cancel_left] at hright
    rw [hright, Nat.add_assoc]

theorem PartOf.cons {x : Nat → α} {t : Nat} {a : α} {xs : List α} (h : PartOf x t (a :: xs)) :
    a = x t ∧ PartOf x (t + 1) xs :=
  ⟨Option.some.inj (h 0 (Nat.succ_pos _)), PartOf.append (show PartOf x t ([a] ++ xs) from h) |>.2⟩

theorem partOf_getD (xs : List α) (d : α) : PartOf (fun k => xs.getD k d) 0 xs := by
  intro k hk
  rw [Nat.zero_add]
  dsimp only
  rw [List.getD_eq_getElem?_getD, List.getElem?_eq_getElem hk, Option.getD_some]

/-- The numbers of `f` from `t` on. -/
def part (f : Nat → β) (t n : Nat) : List β := (List.range n).map fun k => f (t + k)

theorem part_append (f : Nat → β) (t n k : Nat) :
    part f t (n + k) = part f t n ++ part f (t + n) k := by
  rw [part, List.range_add, List.map_append, List.map_map, part, part]
  refine congrArg (_ ++ ·) (List.map_congr_left ?_)
  intro j _
  rw [Function.comp_apply, Nat.add_assoc]

theorem part_cons (f : Nat → β) (t n : Nat) : part f t (n + 1) = f t :: part f (t + 1) n := by
  rw [Nat.add_comm n 1, part_append]
  rfl

theorem part_length (f : Nat → β) (t n : Nat) : (part f t n).length = n := by
  rw [part, List.length_map, List.length_range]

/-- What holds before a chunk holds after it, and the chunk comes back filtered. -/
def Step (step : σ → List α → Option (σ × List β)) (Good : List α → Prop) (x : Nat → α)
    (f : Nat → β) (Inv : Nat → σ → Prop) : Prop :=
  ∀ t s chunk, Good chunk → PartOf x t chunk → Inv t s →
    ∃ s', step s chunk = some (s', part f t chunk.length) ∧ Inv (t + chunk.length) s'

theorem run_spec {step : σ → List α → Option (σ × List β)} {Good : List α → Prop} {x : Nat → α}
    {f : Nat → β} {Inv : Nat → σ → Prop} (hstep : Step step Good x f Inv)
    {chunks : List (List α)} {t : Nat} {s : σ} (hgood : ∀ chunk ∈ chunks, Good chunk)
    (hpart : PartOf x t chunks.flatten) (h : Inv t s) :
    ∃ s' outs, run step s chunks = some (s', outs) ∧
      outs.map List.length = chunks.map List.length ∧
      outs.flatten = part f t chunks.flatten.length ∧ Inv (t + chunks.flatten.length) s' := by
  induction chunks generalizing t s with
  | nil => exact ⟨s, [], rfl, rfl, rfl, h⟩
  | cons chunk chunks ih =>
    rw [List.flatten_cons] at hpart ⊢
    obtain ⟨hchunk, hrest⟩ := hpart.append
    obtain ⟨s', hs', h'⟩ := hstep t s chunk (hgood chunk List.mem_cons_self) hchunk h
    obtain ⟨s'', outs, hrun, hlengths, hflat, h''⟩ :=
      ih (fun c hc => hgood c (List.mem_cons_of_mem chunk hc)) hrest h'
    refine ⟨s'', part f t chunk.length :: outs, ?_, ?_, ?_, ?_⟩
    · rw [run, hs', Option.bind_eq_bind, Option.bind_some]
      dsimp only
      rw [hrun]
      rfl
    · rw [List.map_cons, List.map_cons, hlengths, part_length]
    · rw [List.flatten_cons, hflat, List.length_append, part_append]
    · rwa [List.length_append, ← Nat.add_assoc]

end Chunks
end SoundScreen
