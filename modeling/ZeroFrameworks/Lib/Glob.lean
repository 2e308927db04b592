import Mathlib.Data.List.Basic

/-!
# Glob patterns

A pattern is a list of characters in which `one` stands for any character and `many` for any string.  `Narrow` is the
stricter reading of a matcher that compares characters before it looks for wildcards: a `many` that meets itself in
the text stands for this one character.

    Narrow pattern text → Matches pattern text   (Narrow.matches)
    Matches pattern text → many ∉ text ∨ many ∉ pattern → Narrow pattern text   (Matches.narrow)
    Agrees n pattern text → Narrow pattern (text from d on) →
      Narrow (pattern from n on) (text from some e ≥ n on)   (Narrow.past)
-/

namespace Glob

variable {α : Type*} [DecidableEq α] (one many : α)

/-! ## Specification -/

def Matches : List α → List α → Prop
  | [], text => text = []
  | c :: pattern, text =>
    if c = many then ∃ w rest, text = w ++ rest ∧ Matches pattern rest
    else ∃ b rest, text = b :: rest ∧ (c = one ∨ c = b) ∧ Matches pattern rest

/-- `Matches` where each `many` whose place in the text holds `many` stands for just this. -/
def Narrow : List α → List α → Prop
  | [], text => text = []
  | c :: pattern, text =>
    if c = many then
      ∃ w rest, text = w ++ rest ∧ (text.head? = some many → w = [many]) ∧ Narrow pattern rest
    else ∃ b rest, text = b :: rest ∧ (c = one ∨ c = b) ∧ Narrow pattern rest

/-- The first `n` characters of a pattern match those of the text, each its own. -/
def Agrees (n : Nat) (pattern text : List α) : Prop :=
  ∀ j < n, ∃ c b, pattern[j]? = some c ∧ text[j]? = some b ∧ (c = one ∨ c = b)

/-! ## Lemmas -/

variable {one many} {pattern text rest : List α} {b c : α} {n : Nat}

theorem narrow_many : Narrow one many (many :: pattern) text ↔
    ∃ w rest, text = w ++ rest ∧ (text.head? = some many → w = [many]) ∧ Narrow one many pattern rest := by
  rw [Narrow, if_pos rfl]

theorem narrow_ne (h : c ≠ many) : Narrow one many (c :: pattern) text ↔
    ∃ b rest, text = b :: rest ∧ (c = one ∨ c = b) ∧ Narrow one many pattern rest := by
  rw [Narrow, if_neg h]

theorem narrow_many_many : Narrow one many (many :: pattern) (many :: rest) ↔ Narrow one many pattern rest := by
  rw [narrow_many]
  constructor
  · rintro ⟨w, rest', heq, hw, h⟩
    obtain rfl := hw rfl
    obtain rfl := (List.cons.inj heq).2
    exact h
  · intro h
    exact ⟨[many], rest, rfl, fun _ => rfl, h⟩

theorem narrow_open (hhead : text.head? ≠ some many) :
    Narrow one many (many :: pattern) text ↔ ∃ d, Narrow one many pattern (text.drop d) := by
  rw [narrow_many]
  constructor
  · rintro ⟨w, rest, rfl, -, h⟩
    refine ⟨w.length, ?_⟩
    rwa [List.drop_left]
  · rintro ⟨d, h⟩
    exact ⟨text.take d, text.drop d, (List.take_append_drop d text).symm, fun he => absurd he hhead, h⟩

theorem narrow_step (hone : one ≠ many) (h : c = one ∨ c = b) :
    Narrow one many (c :: pattern) (b :: rest) ↔ Narrow one many pattern rest := by
  by_cases hc : c = many
  · subst hc
    obtain rfl : c = b := h.resolve_left fun he => hone he.symm
    exact narrow_many_many
  · rw [narrow_ne hc]
    constructor
    · rintro ⟨b', rest', heq, -, hr⟩
      obtain rfl := (List.cons.inj heq).2
      exact hr
    · intro hr
      exact ⟨b, rest, rfl, h, hr⟩

theorem not_narrow_cons (hc : c ≠ many) (h : ¬(c = one ∨ c = b)) : ¬Narrow one many (c :: pattern) (b :: rest) := by
  rw [narrow_ne hc]
  rintro ⟨b', rest', heq, hb, -⟩
  obtain rfl := (List.cons.inj heq).1
  exact h hb

theorem narrow_end : Narrow one many pattern [] ↔ ∀ c ∈ pattern, c = many := by
  induction pattern with
  | nil => exact ⟨fun _ c hc => (by cases hc), fun _ => rfl⟩
  | cons c pattern ih =>
    by_cases hc : c = many
    · subst hc
      rw [narrow_open (by simp), List.forall_mem_cons, ← ih]
      simp
    · rw [narrow_ne hc, List.forall_mem_cons]
      constructor
      · rintro ⟨b, rest, heq, -⟩
        cases heq
      · rintro ⟨he, -⟩
        exact absurd he hc

theorem Narrow.matches (h : Narrow one many pattern text) : Matches one many pattern text := by
  induction pattern generalizing text with
  | nil => exact h
  | cons c pattern ih =>
    unfold Matches
    unfold Narrow at h
    split at h
    next hc =>
      obtain ⟨w, rest, heq, -, hr⟩ := h
      rw [if_pos hc]
      exact ⟨w, rest, heq, ih hr⟩
    next hc =>
      obtain ⟨b, rest, heq, hb, hr⟩ := h
      rw [if_neg hc]
      exact ⟨b, rest, heq, hb, ih hr⟩

theorem Matches.narrow (hno : many ∉ text ∨ many ∉ pattern) (h : Matches one many pattern text) :
    Narrow one many pattern text := by
  induction pattern generalizing text with
  | nil => exact h
  | cons c pattern ih =>
    unfold Narrow
    unfold Matches at h
    split at h
    next hc =>
      obtain ⟨w, rest, rfl, hr⟩ := h
      have hno' : many ∉ w ++ rest := hno.resolve_right fun hp => hp (hc ▸ List.mem_cons_self)
      rw [if_pos hc]
      refine ⟨w, rest, rfl, fun hhead => ?_, ih (.inl fun hm => hno' (List.mem_append_right w hm)) hr⟩
      exact absurd (List.mem_of_mem_head? hhead) hno'
    next hc =>
      obtain ⟨b, rest, rfl, hb, hr⟩ := h
      rw [if_neg hc]
      refine ⟨b, rest, rfl, hb, ih ?_ hr⟩
      exact hno.imp (fun hm hr => hm (List.mem_cons_of_mem b hr)) fun hm hp => hm (List.mem_cons_of_mem c hp)

omit [DecidableEq α] in
theorem Agrees.succ (h : Agrees one n pattern text) (hc : pattern[n]? = some c) (hb : text[n]? = some b)
    (heq : c = one ∨ c = b) : Agrees one (n + 1) pattern text := by
  intro j hj
  by_cases hjn : j = n
  · subst hjn
    exact ⟨c, b, hc, hb, heq⟩
  · exact h j (by omega)

/-- What matches the pattern from a later place in the text on matches the rest of it behind a part that agrees:
nothing is lost when a matcher forgets the places it could have gone back to. -/
theorem Narrow.past (hone : one ≠ many) {d : Nat} (ha : Agrees one n pattern text)
    (h : Narrow one many pattern (text.drop d)) : ∃ e, n ≤ e ∧ Narrow one many (pattern.drop n) (text.drop e) := by
  induction n with
  | zero => exact ⟨d, d.zero_le, h⟩
  | succ n ih =>
    obtain ⟨e, he, hn⟩ := ih fun j hj => ha j (by omega)
    obtain ⟨c, b, hc, hb, heq⟩ := ha n n.lt_succ_self
    obtain ⟨hlt, hget⟩ := List.getElem?_eq_some_iff.mp hc
    rw [List.drop_eq_getElem_cons hlt, hget] at hn
    by_cases hmany : c = many
    · subst hmany
      obtain rfl : c = b := heq.resolve_left fun h => hone h.symm
      by_cases hen : e = n
      · -- the pattern's wildcard meets itself here as well
        subst hen
        obtain ⟨hlt', hget'⟩ := List.getElem?_eq_some_iff.mp hb
        rw [List.drop_eq_getElem_cons hlt', hget', narrow_many_many] at hn
        exact ⟨e + 1, Nat.le_refl _, hn⟩
      · obtain ⟨w, rest, htext, -, hr⟩ := narrow_many.mp hn
        have hrest : text.drop (e + w.length) = rest := by rw [← List.drop_drop, htext, List.drop_left]
        refine ⟨e + w.length, ?_, hrest ▸ hr⟩
        omega
    · obtain ⟨b', rest, htext, -, hr⟩ := (narrow_ne hmany).mp hn
      have hrest : text.drop (e + 1) = rest := by
        rw [← List.drop_drop, htext]
        rfl
      exact ⟨e + 1, by omega, hrest ▸ hr⟩

end Glob
