import Mathlib.Data.List.Basic

/-!
# Runs

A machine takes one event after the other.  `Along` says something of each step of a run, in the state before it.

    the invariant holds and says that P and Q are the same of a step; a step with P keeps it →
      P along a run ↔ Q along it   (along_iff)
    a step with P keeps the invariant → it holds at the end of a run with P along it   (Along.run)
-/

namespace Runs

variable {S E : Type*} {apply : S → E → S} {P Q : S → E → Prop} {inv : S → Prop} {s : S} {e : E} {es : List E}

def Along (apply : S → E → S) (P : S → E → Prop) (s : S) (es : List E) : Prop :=
  ∀ pre e post, es = pre ++ e :: post → P (pre.foldl apply s) e

theorem along_nil : Along apply P s [] := fun _ _ _ heq => absurd heq (by simp)

theorem along_cons : Along apply P s (e :: es) ↔ P s e ∧ Along apply P (apply s e) es := by
  constructor
  · intro h
    refine ⟨h [] e es rfl, fun pre e' post heq => ?_⟩
    exact h (e :: pre) e' post (by rw [heq, List.cons_append])
  · rintro ⟨he, h⟩ pre e' post heq
    cases pre with
    | nil =>
      obtain ⟨rfl, -⟩ := List.cons.inj heq
      exact he
    | cons e0 pre =>
      obtain ⟨rfl, hrest⟩ := List.cons.inj heq
      exact h pre e' post hrest

theorem along_iff (hsame : ∀ s e, inv s → (P s e ↔ Q s e)) (hkeep : ∀ s e, inv s → P s e → inv (apply s e))
    (h : inv s) : Along apply P s es ↔ Along apply Q s es := by
  induction es generalizing s with
  | nil => exact ⟨fun _ => along_nil, fun _ => along_nil⟩
  | cons e es ih =>
    rw [along_cons, along_cons, hsame s e h]
    refine and_congr_right fun he => ?_
    exact ih (hkeep s e h ((hsame s e h).mpr he))

theorem Along.run (inv : S → Prop) (ha : Along apply P s es) (hkeep : ∀ s e, inv s → P s e → inv (apply s e)) (h : inv s) :
    inv (es.foldl apply s) := by
  induction es generalizing s with
  | nil => exact h
  | cons e es ih =>
    obtain ⟨he, hes⟩ := along_cons.mp ha
    exact ih hes (hkeep s e h he)

end Runs
