import Mathlib.Logic.Function.Basic

/-!
# Overwriting a table

A change of a table that gives some of its cells a value of its own and leaves the others.  Such changes
compose, and carrying one out a second time changes nothing.

    overwrite h (overwrite g s) = overwrite (h over g) s   (overwrite_overwrite)
    overwrite g (overwrite g s) = overwrite g s   (overwrite_idem)
-/

namespace Lib

variable {D K V : Type*}

/-- The table `s` with the cells that `g` names. -/
def overwrite (g : D → K → Option V) (s : D → K → V) : D → K → V := fun d k => (g d k).getD (s d k)

theorem overwrite_apply (g : D → K → Option V) (s : D → K → V) (d : D) (k : K) :
    overwrite g s d k = (g d k).getD (s d k) := rfl

@[simp] theorem overwrite_none (s : D → K → V) : overwrite (fun _ _ => none) s = s := rfl

theorem overwrite_overwrite (g h : D → K → Option V) (s : D → K → V) :
    overwrite h (overwrite g s) = overwrite (fun d k => (h d k).or (g d k)) s := by
  funext d k
  show (h d k).getD ((g d k).getD (s d k)) = ((h d k).or (g d k)).getD (s d k)
  cases h d k with
  | none => rfl
  | some v => rfl

theorem overwrite_idem (g : D → K → Option V) (s : D → K → V) :
    overwrite g (overwrite g s) = overwrite g s := by
  rw [overwrite_overwrite]
  congr 1
  funext d k
  cases g d k with
  | none => rfl
  | some v => rfl

end Lib
