import Mathlib.Data.List.Basic

/-!
# SoundScreen.Lib.Trace

Traces of events in which each event must be justified by the events before it.

* `justified_append`: a trace is justified piece by piece.
* `justified_iff`: the same as a statement about every way to cut the trace before an event.
-/

namespace SoundScreen
namespace Trace

variable {α : Type*} {P : List α → α → Prop}

/-- Each event of the trace satisfies `P` of the events before it, `past` included. -/
def Justified (P : List α → α → Prop) (past : List α) : List α → Prop
  | [] => True
  | e :: rest => P past e ∧ Justified P (past ++ [e]) rest

theorem justified_append {past xs ys : List α} :
    Justified P past (xs ++ ys) ↔ Justified P past xs ∧ Justified P (past ++ xs) ys := by
  induction xs generalizing past with
  | nil => simp [Justified]
  | cons x xs ih => simp only [List.cons_append, Justified, ih, and_assoc, List.append_assoc,
      List.nil_append]

theorem justified_iff {past trace : List α} : Justified P past trace ↔
    ∀ before e rest, trace = before ++ e :: rest → P (past ++ before) e := by
  induction trace generalizing past with
  | nil => simp [Justified]
  | cons x xs ih =>
    rw [Justified, ih]
    constructor
    · rintro ⟨hx, hxs⟩ before e rest h
      cases before with
      | nil =>
        cases h
        rwa [List.append_nil]
      | cons b before =>
        cases h
        have hlater := hxs before e rest rfl
        rwa [List.append_assoc] at hlater
    · intro h
      refine ⟨?_, ?_⟩
      · have hfirst := h [] x xs rfl
        rwa [List.append_nil] at hfirst
      · intro before e rest hxs
        have hlater := h (x :: before) e rest (by rw [hxs, List.cons_append])
        rwa [List.append_assoc]

/-- An event without justification spoils every trace that goes through it. -/
theorem not_justified {before trace : List α} {e : α} (h : before ++ [e] <+: trace)
    (he : ¬P before e) : ¬Justified P [] trace := by
  obtain ⟨rest, rfl⟩ := h
  intro hall
  exact he (justified_iff.mp hall before e rest (by rw [List.append_assoc]; rfl))

end Trace
end SoundScreen
