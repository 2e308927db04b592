import Mathlib.Data.List.Basic

/-!
# Texts of lines

A line ends with the pair `cr`, `lf`.  What comes after the last pair is no line.

    lines acc (x ++ cr :: lf :: y) = lines acc (x ++ [cr, lf]) ++ lines [] y   (lines_append)
-/

namespace Lines

variable {α : Type} [DecidableEq α] (cr lf : α)

/-- The lines of a text, the first of which goes on from `acc`, in reverse. -/
def lines (acc : List α) : List α → List (List α)
  | [] => []
  | [_] => []
  | x :: y :: rest => if x = cr ∧ y = lf then acc.reverse :: lines [] rest else lines (x :: acc) (y :: rest)

variable {cr lf}

theorem lines_crlf (acc rest : List α) : lines cr lf acc (cr :: lf :: rest) = acc.reverse :: lines cr lf [] rest := by
  rw [lines, if_pos ⟨rfl, rfl⟩]

theorem lines_skip (acc : List α) {x y : α} (h : ¬ (x = cr ∧ y = lf)) (rest : List α) :
    lines cr lf acc (x :: y :: rest) = lines cr lf (x :: acc) (y :: rest) := by
  rw [lines, if_neg h]

theorem lines_append (hne : cr ≠ lf) (acc text rest : List α) :
    lines cr lf acc (text ++ cr :: lf :: rest) = lines cr lf acc (text ++ [cr, lf]) ++ lines cr lf [] rest := by
  induction hn : text.length using Nat.strongRecOn generalizing text acc with
  | ind n ih =>
    match text with
    | [] =>
      rw [List.nil_append, List.nil_append, lines_crlf, lines_crlf]
      rfl
    | [x] =>
      have hx : ¬ (x = cr ∧ cr = lf) := fun h => hne h.2
      show lines cr lf acc (x :: cr :: lf :: rest) = lines cr lf acc (x :: cr :: [lf]) ++ _
      rw [lines_skip acc hx, lines_skip acc hx, lines_crlf, lines_crlf]
      rfl
    | x :: y :: text =>
      show lines cr lf acc (x :: y :: (text ++ cr :: lf :: rest)) = lines cr lf acc (x :: y :: (text ++ [cr, lf])) ++ _
      by_cases hxy : x = cr ∧ y = lf
      · obtain ⟨rfl, rfl⟩ := hxy
        rw [lines_crlf, lines_crlf, ih text.length (by rw [← hn, List.length_cons, List.length_cons]; omega) [] text rfl]
        rfl
      · rw [lines_skip acc hxy, lines_skip acc hxy]
        exact ih (y :: text).length (by rw [← hn]; simp) (x :: acc) (y :: text) rfl

theorem lines_of_notMem (hne : cr ≠ lf) {text : List α} (h : lf ∉ text) (acc rest : List α) :
    lines cr lf acc (text ++ cr :: lf :: rest) = (acc.reverse ++ text) :: lines cr lf [] rest := by
  induction text generalizing acc with
  | nil => rw [List.nil_append, lines_crlf, List.append_nil]
  | cons x text ih =>
    have htext : lf ∉ text := fun hin => h (List.mem_cons_of_mem x hin)
    have hskip : lines cr lf acc (x :: (text ++ cr :: lf :: rest)) = lines cr lf (x :: acc) (text ++ cr :: lf :: rest) := by
      cases text with
      | nil => exact lines_skip acc (fun hx => hne hx.2) _
      | cons y text => exact lines_skip acc (fun hx => htext (by rw [← hx.2]; exact List.mem_cons_self)) _
    show lines cr lf acc (x :: (text ++ cr :: lf :: rest)) = _
    rw [hskip, ih htext, List.reverse_cons, List.append_assoc]
    rfl

theorem lines_ne_nil (acc text : List α) : lines cr lf acc (text ++ [cr, lf]) ≠ [] := by
  induction text generalizing acc with
  | nil =>
    rw [List.nil_append, lines_crlf]
    exact List.cons_ne_nil _ _
  | cons x text ih =>
    obtain ⟨y, rest, hrest⟩ := List.exists_cons_of_ne_nil (List.append_ne_nil_of_right_ne_nil text (List.cons_ne_nil cr [lf]))
    rw [List.cons_append, hrest, lines]
    split
    · exact List.cons_ne_nil _ _
    · rw [← hrest]
      exact ih (x :: acc)

end Lines
