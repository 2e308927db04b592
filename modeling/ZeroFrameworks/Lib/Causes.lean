import Mathlib.Data.List.Induction

/-!
# Causes

What does not hold at the start of a run and holds at its end came about at a step, and has held since:

    ¬ P s, P (es.foldl apply s) → es = pre ++ e :: post, P came about at e and holds all along post   (exists_cause)
-/

namespace Causes

variable {S E : Type*}

/-- `P` came about at the step `e` and has held since. -/
structure Cause (apply : S → E → S) (P : S → Prop) (s : S) (pre : List E) (e : E) (post : List E) : Prop where
  before : ¬ P (pre.foldl apply s)
  after : P (apply (pre.foldl apply s) e)
  since : ∀ k, P ((post.take k).foldl apply (apply (pre.foldl apply s) e))

theorem exists_cause (apply : S → E → S) (P : S → Prop) {s : S} {es : List E} (h : ¬ P s) (hend : P (es.foldl apply s)) :
    ∃ pre e post, es = pre ++ e :: post ∧ Cause apply P s pre e post := by
  induction es using List.reverseRecOn with
  | nil => exact absurd hend h
  | append_singleton es e ih =>
    by_cases hlast : P (es.foldl apply s)
    · obtain ⟨pre, e', post, rfl, hc⟩ := ih hlast
      refine ⟨pre, e', post ++ [e], by simp, hc.before, hc.after, fun k => ?_⟩
      by_cases hk : k ≤ post.length
      · rw [List.take_append_of_le_length hk]
        exact hc.since k
      · rw [List.take_of_length_le (by simp; omega)]
        simpa [List.foldl_append] using hend
    · refine ⟨es, e, [], rfl, hlast, ?_, fun k => ?_⟩
      · simpa [List.foldl_append] using hend
      · simpa [List.foldl_append] using hend

end Causes
