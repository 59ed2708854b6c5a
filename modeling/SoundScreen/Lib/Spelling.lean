import Mathlib.Logic.Relation

/-!
# SoundScreen.Lib.Spelling

Letters of an alphabet `α` written one after the other as words over digits `δ`, with nothing in
between, where each digit is the word of a letter too. Two texts are the same exactly if the
letters of one become those of the other when letters are replaced by the digits they are spelled
with, and the other way (`flatMap_spell_eq_iff`).
-/

namespace SoundScreen
namespace Spelling

variable {α δ : Type*} (spell : α → List δ) (letter : δ → α)

/-- One letter is replaced by the letters of its digits. -/
inductive Respell : List α → List α → Prop
  | split (before : List α) (a : α) (after : List α) :
    Respell (before ++ a :: after) (before ++ (spell a).map letter ++ after)

variable {spell letter}

theorem Respell.append_left {xs ys : List α} (before : List α) (h : Respell spell letter xs ys) :
    Respell spell letter (before ++ xs) (before ++ ys) := by
  cases h with
  | split before' a after =>
    rw [← List.append_assoc, ← List.append_assoc, ← List.append_assoc]
    exact .split (before ++ before') a after

theorem eqvGen_append_left {xs ys : List α} (before : List α)
    (h : Relation.EqvGen (Respell spell letter) xs ys) :
    Relation.EqvGen (Respell spell letter) (before ++ xs) (before ++ ys) := by
  induction h with
  | rel xs ys h => exact .rel _ _ (h.append_left before)
  | refl xs => exact .refl _
  | symm xs ys _ ih => exact .symm _ _ ih
  | trans xs ys zs _ _ ih₁ ih₂ => exact .trans _ _ _ ih₁ ih₂

/-- Letter by letter, a list turns into its digits. -/
theorem eqvGen_digits (xs : List α) :
    Relation.EqvGen (Respell spell letter) xs ((xs.flatMap spell).map letter) := by
  induction xs with
  | nil => exact .refl _
  | cons a xs ih =>
    have hstep : Respell spell letter (a :: xs) ((spell a).map letter ++ xs) := .split [] a xs
    rw [List.flatMap_cons, List.map_append]
    exact .trans _ _ _ (.rel _ _ hstep) (eqvGen_append_left _ ih)

theorem flatMap_spell_letters (hletter : ∀ d, spell (letter d) = [d]) (ds : List δ) :
    (ds.map letter).flatMap spell = ds := by
  induction ds with
  | nil => rfl
  | cons d ds ih => rw [List.map_cons, List.flatMap_cons, hletter, ih, List.singleton_append]

theorem Respell.flatMap_eq (hletter : ∀ d, spell (letter d) = [d]) {xs ys : List α}
    (h : Respell spell letter xs ys) : xs.flatMap spell = ys.flatMap spell := by
  cases h with
  | split before a after =>
    rw [List.flatMap_append, List.flatMap_append, List.flatMap_append, List.flatMap_cons,
      flatMap_spell_letters hletter, List.append_assoc]

/-- The texts of two lists are the same exactly if one turns into the other. -/
theorem flatMap_spell_eq_iff (hletter : ∀ d, spell (letter d) = [d]) {xs ys : List α} :
    xs.flatMap spell = ys.flatMap spell ↔ Relation.EqvGen (Respell spell letter) xs ys := by
  constructor
  · intro h
    have hxs : Relation.EqvGen (Respell spell letter) xs ((xs.flatMap spell).map letter) :=
      eqvGen_digits xs
    rw [h] at hxs
    exact .trans _ _ _ hxs (.symm _ _ (eqvGen_digits ys))
  · intro h
    induction h with
    | rel xs ys h => exact h.flatMap_eq hletter
    | refl xs => rfl
    | symm xs ys _ ih => exact ih.symm
    | trans xs ys zs _ _ ih₁ ih₂ => exact ih₁.trans ih₂

end Spelling
end SoundScreen
