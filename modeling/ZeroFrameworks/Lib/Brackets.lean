import ZeroFrameworks.Lib.Placeholders

/-!
# Brackets outside quotes

A text is read from a depth to a depth; brackets within quotes do not count.  A quote within quotes is written twice.

    from m to n, then from n to k, is from m to k   (Leads.append)
    unquote (enclose x) = x   (unquote_enclose)
-/

namespace Brackets

open Placeholders (enclose)

variable {α : Type} [DecidableEq α] (quote opening closing : α)

/-! ## Specification -/

/-- Whether the text ends within quotes, and at which depth; `none` where it closes what is not open. -/
def depth : Bool → Nat → List α → Option (Bool × Nat)
  | quoted, n, [] => some (quoted, n)
  | quoted, n, a :: rest =>
    if a = quote then depth (!quoted) n rest
    else if quoted then depth quoted n rest
    else if a = opening then depth quoted (n + 1) rest
    else if a = closing then (if n = 0 then none else depth quoted (n - 1) rest)
    else depth quoted n rest

/-- From depth `m` to depth `n`, and outside quotes at both ends. -/
def Leads (m n : Nat) (x : List α) : Prop := depth quote opening closing false m x = some (false, n)

instance (m n : Nat) (x : List α) : Decidable (Leads quote opening closing m n x) := inferInstanceAs (Decidable (_ = _))

abbrev Balanced (x : List α) : Prop := Leads quote opening closing 0 0 x

/-- What follows the opening quote of one quoted text, read. -/
def unquoteRest : List α → Option (List α)
  | [] => none
  | [a] => if a = quote then some [] else none
  | a :: b :: rest =>
    if a = quote then (if b = quote then (unquoteRest rest).map (quote :: ·) else none)
    else (unquoteRest (b :: rest)).map (a :: ·)

/-- The text that is quoted; `none` for anything but one text in quotes. -/
def unquote : List α → Option (List α)
  | [] => none
  | a :: rest => if a = quote then unquoteRest quote rest else none

/-! ## Lemmas -/

theorem depth_append (quoted : Bool) (m : Nat) (x y : List α) :
    depth quote opening closing quoted m (x ++ y) =
      (depth quote opening closing quoted m x).bind fun p => depth quote opening closing p.1 p.2 y := by
  induction x generalizing quoted m with
  | nil => rfl
  | cons a x ih =>
    rw [List.cons_append, depth, depth]
    split
    · exact ih _ _
    · split
      · exact ih _ _
      · split
        · exact ih _ _
        · split
          · split
            · rfl
            · exact ih _ _
          · exact ih _ _

theorem depth_add {quoted quoted' : Bool} {m n : Nat} {x : List α} (k : Nat)
    (h : depth quote opening closing quoted m x = some (quoted', n)) :
    depth quote opening closing quoted (m + k) x = some (quoted', n + k) := by
  induction x generalizing quoted m with
  | nil =>
    obtain ⟨rfl, rfl⟩ := Prod.mk.inj (Option.some.inj h)
    rfl
  | cons a x ih =>
    rw [depth] at h ⊢
    split
    next ha => exact ih (by rwa [if_pos ha] at h)
    next ha =>
      rw [if_neg ha] at h
      split
      next hq => exact ih (by rwa [if_pos hq] at h)
      next hq =>
        rw [if_neg hq] at h
        split
        next ho =>
          rw [if_pos ho] at h
          rw [Nat.add_right_comm]
          exact ih h
        next ho =>
          rw [if_neg ho] at h
          split
          next hc =>
            rw [if_pos hc] at h
            split at h
            next => cases h
            next hm =>
              rw [if_neg (by omega), show m + k - 1 = m - 1 + k by omega]
              exact ih h
          next hc => exact ih (by rwa [if_neg hc] at h)

variable {quote opening closing}

namespace Leads

variable {m n k : Nat} {x y : List α}

theorem append (hx : Leads quote opening closing m n x) (hy : Leads quote opening closing n k y) :
    Leads quote opening closing m k (x ++ y) := by
  unfold Leads at hx hy ⊢
  rw [depth_append, hx]
  exact hy

theorem lift (h : Balanced quote opening closing x) (n : Nat) : Leads quote opening closing n n x := by
  have := depth_add quote opening closing n h
  rwa [Nat.zero_add] at this

theorem of_notMem (hq : quote ∉ x) (ho : opening ∉ x) (hc : closing ∉ x) (n : Nat) :
    Leads quote opening closing n n x := by
  induction x with
  | nil => rfl
  | cons a x ih =>
    rw [List.mem_cons, not_or] at hq ho hc
    show depth quote opening closing false n (a :: x) = _
    rw [depth, if_neg (Ne.symm hq.1), if_neg Bool.false_ne_true, if_neg (Ne.symm ho.1), if_neg (Ne.symm hc.1)]
    exact ih hq.2 ho.2 hc.2

theorem unique (h : Leads quote opening closing m n x) (h' : Leads quote opening closing m k x) : n = k :=
  (Prod.mk.inj (Option.some.inj (h.symm.trans h'))).2

end Leads

theorem depth_doubled (n : Nat) (x : List α) :
    depth quote opening closing true n (x.flatMap fun a => if a = quote then [quote, a] else [a]) = some (true, n) := by
  induction x with
  | nil => rfl
  | cons a x ih =>
    have hone : depth quote opening closing true n (if a = quote then [quote, a] else [a]) = some (true, n) := by
      by_cases ha : a = quote
      · rw [if_pos ha, depth, if_pos rfl, depth, if_pos ha]
        rfl
      · rw [if_neg ha, depth, if_neg ha, if_pos rfl]
        rfl
    rw [List.flatMap_cons, depth_append, hone]
    exact ih

theorem balanced_enclose (x : List α) : Balanced quote opening closing (enclose quote x) := by
  show depth quote opening closing false 0 (enclose quote x) = some (false, 0)
  unfold enclose
  rw [depth, if_pos rfl, Bool.not_false, depth_append, depth_doubled]
  show depth quote opening closing true 0 [quote] = _
  rw [depth, if_pos rfl]
  rfl

theorem unquoteRest_doubled (x : List α) :
    unquoteRest quote ((x.flatMap fun a => if a = quote then [quote, a] else [a]) ++ [quote]) = some x := by
  induction x with
  | nil =>
    show unquoteRest quote [quote] = _
    rw [unquoteRest, if_pos rfl]
  | cons a x ih =>
    rw [List.flatMap_cons]
    by_cases ha : a = quote
    · subst ha
      rw [if_pos rfl, List.append_assoc, List.cons_append, List.singleton_append, unquoteRest, if_pos rfl, if_pos rfl,
        ih, Option.map_some]
    · rw [if_neg ha, List.append_assoc, List.singleton_append]
      obtain ⟨b, rest, hrest⟩ := List.exists_cons_of_ne_nil
        (List.concat_ne_nil quote (x.flatMap fun a => if a = quote then [quote, a] else [a]))
      rw [hrest] at ih ⊢
      rw [unquoteRest, if_neg ha, ih, Option.map_some]

theorem unquote_enclose (x : List α) : unquote quote (enclose quote x) = some x := by
  unfold enclose
  rw [unquote, if_pos rfl]
  exact unquoteRest_doubled x

end Brackets
