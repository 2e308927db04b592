import Mathlib.Data.Fintype.BigOperators
import Mathlib.Tactic.Abel

/-!
# What parties hold between them

Each of finitely many parties stands at a point, and holds a share that depends on it.  When one party goes on, the
sum changes by its share alone.

    sum share (update point w p) + share (point w) = sum share point + share p   (sum_move)

Over a part of the parties, the two sums differ by what the one holds before and after.   (sum_exchange)
-/

namespace Shares

variable {W P M : Type} [Fintype W] [AddCommMonoid M]

def sum (share : P → M) (point : W → P) : M := ∑ w, share (point w)

variable [DecidableEq W]

theorem sum_update_add (f : W → M) (w : W) (b : M) : ∑ x, Function.update f w b x + f w = ∑ x, f x + b := by
  have herase : ∑ x ∈ Finset.univ.erase w, Function.update f w b x = ∑ x ∈ Finset.univ.erase w, f x :=
    Finset.sum_congr rfl fun x hx => Function.update_of_ne (Finset.ne_of_mem_erase hx) ..
  rw [← Finset.add_sum_erase _ _ (Finset.mem_univ w), ← Finset.add_sum_erase _ f (Finset.mem_univ w), herase,
    Function.update_self]
  abel

theorem sum_move (share : P → M) (point : W → P) (w : W) (p : P) :
    sum share (Function.update point w p) + share (point w) = sum share point + share p := by
  rw [sum, sum, ← sum_update_add (fun x => share (point x)) w (share p)]
  congr 1
  apply Finset.sum_congr rfl
  intro x hx
  by_cases h : x = w
  · subst h
    rw [Function.update_self, Function.update_self]
  · rw [Function.update_of_ne h, Function.update_of_ne h]

omit [DecidableEq W] in
theorem sum_eq_zero {share : P → M} {point : W → P} (h : ∀ w, share (point w) = 0) : sum share point = 0 :=
  Finset.sum_eq_zero fun w _ => h w

theorem sum_exchange {ι : Type} [DecidableEq ι] {K : Finset ι} {f g : ι → M} {i : ι} (hi : i ∈ K)
    (h : ∀ j ∈ K, j ≠ i → f j = g j) : ∑ j ∈ K, f j + g i = ∑ j ∈ K, g j + f i := by
  have hrest : ∑ j ∈ K.erase i, f j = ∑ j ∈ K.erase i, g j := by
    apply Finset.sum_congr rfl
    intro j hj
    exact h j (Finset.mem_of_mem_erase hj) (Finset.ne_of_mem_erase hj)
  rw [← Finset.add_sum_erase K f hi, ← Finset.add_sum_erase K g hi, hrest]
  rw [add_right_comm (f i), add_comm (f i), add_right_comm]

end Shares
