import Mathlib.Logic.Relation
import Mathlib.Data.List.Infix
import Mathlib.Tactic.Basic

/-!
# SoundScreen.Lib.Channel

The one-place channel, as a specification: `put` needs the place empty, `take` needs it full.
The state keeps everything ever sent and everything ever received, so that the content
theorems are about whole histories.

* `reachable_lossless`: what was sent is what was received plus what is in the place.
* `received_prefix_sent`, `sent_length_le`: nothing lost, repeated or reordered, one item in flight.
-/

namespace SoundScreen

structure Channel (α : Type*) where
  sent : List α
  received : List α
  place : Option α

namespace Channel

variable {α : Type*}

def empty : Channel α := ⟨[], [], none⟩

inductive Step : Channel α → Channel α → Prop where
  | put {c : Channel α} (x : α) : c.place = none →
      Step c { c with sent := c.sent ++ [x], place := some x }
  | take {c : Channel α} {x : α} : c.place = some x →
      Step c { c with received := c.received ++ [x], place := none }

def Reachable (c : Channel α) : Prop := Relation.ReflTransGen Step empty c

/-- What was sent is what was received, then the item in flight. -/
def Lossless (c : Channel α) : Prop := c.sent = c.received ++ c.place.toList

theorem step_lossless {c c' : Channel α} (h : Step c c') (hc : c.Lossless) : c'.Lossless := by
  cases h with
  | put x hn => simp_all [Lossless]
  | take hx => simp_all [Lossless]

theorem reachable_lossless {c : Channel α} (h : Reachable c) : c.Lossless := by
  induction h with
  | refl => rfl
  | tail _ hs ih => exact step_lossless hs ih

theorem received_prefix_sent {c : Channel α} (h : Reachable c) : c.received <+: c.sent := by
  rw [reachable_lossless h]
  exact List.prefix_append _ _

theorem sent_length_le {c : Channel α} (h : Reachable c) :
    c.sent.length ≤ c.received.length + 1 := by
  rw [reachable_lossless h, List.length_append]
  cases c.place <;> simp

end Channel
end SoundScreen
