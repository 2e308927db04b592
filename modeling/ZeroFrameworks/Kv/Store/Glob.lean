import ZeroFrameworks.Kv.Store.Keys
import ZeroFrameworks.Lib.Glob

/-!
# Glob matching

`matchGlob` compares the two bytes before it looks for a `*`.  A `*` of the pattern that meets one in the text is
therefore taken for a plain byte, and no place to go back to is kept: `*` does not match the text `*a`.

    globRun pattern text rounds 0 0 none = some (matchGlob pattern text) for all rounds from some number on
    matchGlob pattern text = true ↔ Narrow pattern text   (matchGlob_iff)
    matchGlob is right on pattern and text ↔ (Matches pattern text → Narrow pattern text)   (globRight_iff)
-/

namespace Kv

/-! ## Algorithm -/

/-- The loop of `matchGlob`; `none` where it has not returned after so many rounds. -/
def globRun (pattern text : Bytes) : Nat → Nat → Nat → Option (Nat × Nat) → Option Bool
  | 0, _, _, _ => none
  | rounds + 1, pi, ti, star =>
    if h : ti < text.length then
      if pattern[pi]? = some 63 ∨ pattern[pi]? = some text[ti] then
        globRun pattern text rounds (pi + 1) (ti + 1) star
      else if pattern[pi]? = some 42 then
        globRun pattern text rounds (pi + 1) ti (some (pi + 1, ti))
      else
        match star with
        | some (starPi, starTi) =>
          globRun pattern text rounds starPi (starTi + 1) (some (starPi, starTi + 1))
        | none => some false
    else some ((pattern.drop pi).all (· == 42))

/-- `PubSubHub::matchPattern`, which has a copy of `matchGlob` of its own. -/
def PubSubHub.matchPattern (pattern channel : Bytes) : Bool := matchGlob pattern channel

/-! ## Specification -/

/-- `?` for any byte, `*` for any string, every other byte for itself. -/
def GlobMatches (pattern text : Bytes) : Prop := Glob.Matches 63 42 pattern text

/-- A match in which each `*` whose place in the text holds a `*` stands for just this byte. -/
def GlobNarrow (pattern text : Bytes) : Prop := Glob.Narrow 63 42 pattern text

/-- The loop returns, and its answer is the right one. -/
def GlobRight (answer : Bytes → Bytes → Bool) (pattern text : Bytes) : Prop :=
  (∃ n, ∀ rounds, n ≤ rounds → globRun pattern text rounds 0 0 none = some (answer pattern text)) ∧
    (answer pattern text = true ↔ GlobMatches pattern text)

/-! ## Lemmas -/

/-- Where the loop stands: since the last `*` pattern and text agree byte by byte. -/
structure GlobWalk (pattern text : Bytes) (pi ti : Nat) (star : Option (Nat × Nat)) : Prop where
  pi_le : pi ≤ pattern.length
  ti_le : ti ≤ text.length
  agrees : ∀ starPi starTi, star = some (starPi, starTi) →
    ∃ n, pi = starPi + n ∧ ti = starTi + n ∧ Glob.Agrees 63 n (pattern.drop starPi) (text.drop starTi)

/-- What the loop can still find. -/
def GlobAhead (pattern text : Bytes) (pi ti : Nat) (star : Option (Nat × Nat)) : Prop :=
  GlobNarrow (pattern.drop pi) (text.drop ti) ∨
    ∃ starPi starTi i, star = some (starPi, starTi) ∧ starTi < i ∧ GlobNarrow (pattern.drop starPi) (text.drop i)

/-- A bound for the rounds to come: going back to the last `*` takes it one byte ahead in the text. -/
def globCost (pattern text : Bytes) (pi : Nat) (star : Option (Nat × Nat)) : Nat :=
  (text.length - star.elim 0 Prod.snd) * (pattern.length + 1) + (pattern.length - pi)

section
variable {pattern text : Bytes} {pi ti : Nat} {star : Option (Nat × Nat)}

/-- All that the last `*` could still find lies ahead of where the loop stands now. -/
theorem GlobWalk.ahead_of_star (h : GlobWalk pattern text pi ti star) {starPi starTi i : Nat}
    (hs : star = some (starPi, starTi)) (hi : starTi < i) (hn : GlobNarrow (pattern.drop starPi) (text.drop i)) :
    ∃ e, ti ≤ e ∧ GlobNarrow (pattern.drop pi) (text.drop e) := by
  obtain ⟨n, rfl, rfl, ha⟩ := h.agrees starPi starTi hs
  have hdrop : text.drop i = (text.drop starTi).drop (i - starTi) := by
    rw [List.drop_drop]
    congr 1
    omega
  unfold GlobNarrow at hn
  rw [hdrop] at hn
  obtain ⟨e, he, hpast⟩ := hn.past (by decide) ha
  rw [List.drop_drop, List.drop_drop] at hpast
  exact ⟨starTi + e, by omega, hpast⟩

theorem GlobWalk.step (h : GlobWalk pattern text pi ti star) (hti : ti < text.length)
    (hb : pattern[pi]? = some 63 ∨ pattern[pi]? = some text[ti]) :
    GlobWalk pattern text (pi + 1) (ti + 1) star ∧
      (GlobAhead pattern text (pi + 1) (ti + 1) star ↔ GlobAhead pattern text pi ti star) ∧
      globCost pattern text (pi + 1) star < globCost pattern text pi star := by
  obtain ⟨c, hc, hcb⟩ : ∃ c, pattern[pi]? = some c ∧ (c = 63 ∨ c = text[ti]) := by
    rcases hb with hb | hb
    · exact ⟨63, hb, .inl rfl⟩
    · exact ⟨text[ti], hb, .inr rfl⟩
  obtain ⟨hpi, hget⟩ := List.getElem?_eq_some_iff.mp hc
  refine ⟨⟨hpi, hti, fun starPi starTi hs => ?_⟩, ?_, ?_⟩
  · obtain ⟨n, rfl, rfl, ha⟩ := h.agrees starPi starTi hs
    refine ⟨n + 1, rfl, rfl, ha.succ ?_ ?_ hcb⟩
    · rw [List.getElem?_drop]
      exact hc
    · rw [List.getElem?_drop]
      exact List.getElem?_eq_getElem hti
  · unfold GlobAhead GlobNarrow
    rw [List.drop_eq_getElem_cons hpi, List.drop_eq_getElem_cons hti, hget, Glob.narrow_step (by decide) hcb]
  · unfold globCost
    omega

theorem GlobWalk.openStar (h : GlobWalk pattern text pi ti star) (hti : ti < text.length)
    (hb : ¬(pattern[pi]? = some 63 ∨ pattern[pi]? = some text[ti])) (hc : pattern[pi]? = some 42) :
    GlobWalk pattern text (pi + 1) ti (some (pi + 1, ti)) ∧
      (GlobAhead pattern text (pi + 1) ti (some (pi + 1, ti)) ↔ GlobAhead pattern text pi ti star) ∧
      globCost pattern text (pi + 1) (some (pi + 1, ti)) < globCost pattern text pi star := by
  obtain ⟨hpi, hget⟩ := List.getElem?_eq_some_iff.mp hc
  have hopen : ∀ e, GlobNarrow (pattern.drop pi) (text.drop (ti + e)) →
      ∃ d, GlobNarrow (pattern.drop (pi + 1)) (text.drop (ti + d)) := by
    intro e hn
    unfold GlobNarrow at hn
    rw [List.drop_eq_getElem_cons hpi, hget] at hn
    obtain ⟨w, rest, htext, -, hr⟩ := Glob.narrow_many.mp hn
    refine ⟨e + w.length, ?_⟩
    have hrest : text.drop (ti + (e + w.length)) = rest := by
      rw [← Nat.add_assoc, ← List.drop_drop, htext, List.drop_left]
    exact hrest ▸ hr
  refine ⟨⟨hpi, h.ti_le, fun starPi starTi hs => ?_⟩, ?_, ?_⟩
  · cases hs
    exact ⟨0, rfl, rfl, fun j hj => absurd hj j.not_lt_zero⟩
  · have hnew : GlobAhead pattern text (pi + 1) ti (some (pi + 1, ti)) ↔
        ∃ d, GlobNarrow (pattern.drop (pi + 1)) (text.drop (ti + d)) := by
      constructor
      · rintro (hn | ⟨starPi, starTi, i, hs, hi, hn⟩)
        · exact ⟨0, hn⟩
        · cases hs
          exact ⟨i - ti, by rwa [Nat.add_sub_cancel' hi.le]⟩
      · rintro ⟨d, hn⟩
        cases d with
        | zero => exact .inl hn
        | succ d => exact .inr ⟨pi + 1, ti, ti + (d + 1), rfl, by omega, hn⟩
    rw [hnew]
    constructor
    · rintro ⟨d, hn⟩
      refine .inl ?_
      unfold GlobNarrow at hn ⊢
      rw [List.drop_eq_getElem_cons hpi, hget, Glob.narrow_open]
      · exact ⟨d, by rwa [List.drop_drop]⟩
      · rw [List.head?_drop, List.getElem?_eq_getElem hti]
        intro he
        exact hb (.inr (hc.trans he.symm))
    · rintro (hn | ⟨starPi, starTi, i, hs, hi, hn⟩)
      · exact hopen 0 hn
      · obtain ⟨e, he, hn⟩ := h.ahead_of_star hs hi hn
        refine hopen (e - ti) ?_
        rwa [Nat.add_sub_cancel' he]
  · have hstar : star.elim 0 Prod.snd ≤ ti := by
      cases hs : star with
      | none => exact ti.zero_le
      | some st =>
        obtain ⟨n, -, heq, -⟩ := h.agrees st.1 st.2 hs
        show st.2 ≤ ti
        omega
    have hmul := Nat.mul_le_mul_right (pattern.length + 1) (Nat.sub_le_sub_left hstar text.length)
    unfold globCost
    show (text.length - ti) * _ + _ < _
    omega

theorem GlobWalk.stuck (h : GlobWalk pattern text pi ti star) (hti : ti < text.length)
    (hb : ¬(pattern[pi]? = some 63 ∨ pattern[pi]? = some text[ti])) (hc : pattern[pi]? ≠ some 42) :
    ¬GlobNarrow (pattern.drop pi) (text.drop ti) := by
  intro hn
  unfold GlobNarrow at hn
  rw [List.drop_eq_getElem_cons hti] at hn
  rcases h.pi_le.lt_or_eq with hpi | hpi
  · rw [List.drop_eq_getElem_cons hpi] at hn
    rw [List.getElem?_eq_getElem hpi, Option.some.injEq, Option.some.injEq] at hb
    rw [List.getElem?_eq_getElem hpi, Ne, Option.some.injEq] at hc
    exact Glob.not_narrow_cons hc hb hn
  · rw [hpi, List.drop_length] at hn
    cases hn

theorem GlobWalk.back {starPi starTi : Nat} (h : GlobWalk pattern text pi ti (some (starPi, starTi)))
    (hti : ti < text.length) (hb : ¬(pattern[pi]? = some 63 ∨ pattern[pi]? = some text[ti]))
    (hc : pattern[pi]? ≠ some 42) :
    GlobWalk pattern text starPi (starTi + 1) (some (starPi, starTi + 1)) ∧
      (GlobAhead pattern text starPi (starTi + 1) (some (starPi, starTi + 1)) ↔
        GlobAhead pattern text pi ti (some (starPi, starTi))) ∧
      globCost pattern text starPi (some (starPi, starTi + 1)) <
        globCost pattern text pi (some (starPi, starTi)) := by
  obtain ⟨n, rfl, rfl, ha⟩ := h.agrees starPi starTi rfl
  refine ⟨⟨by have := h.pi_le; omega, by omega, fun sp st hs => ?_⟩, ?_, ?_⟩
  · cases hs
    exact ⟨0, rfl, rfl, fun j hj => absurd hj j.not_lt_zero⟩
  · have hnone := h.stuck hti hb hc
    constructor
    · rintro (hn | ⟨sp, st, i, hs, hi, hn⟩)
      · exact .inr ⟨starPi, starTi, starTi + 1, rfl, by omega, hn⟩
      · cases hs
        exact .inr ⟨starPi, starTi, i, rfl, by omega, hn⟩
    · rintro (hn | ⟨sp, st, i, hs, hi, hn⟩)
      · exact absurd hn hnone
      · cases hs
        by_cases hnext : i = starTi + 1
        · subst hnext
          exact .inl hn
        · exact .inr ⟨starPi, starTi + 1, i, rfl, by omega, hn⟩
  · have hrow : text.length - starTi = text.length - (starTi + 1) + 1 := by omega
    unfold globCost
    show (text.length - (starTi + 1)) * _ + _ < (text.length - starTi) * _ + _
    rw [hrow, Nat.succ_mul]
    omega

theorem GlobWalk.atEnd (h : GlobWalk pattern text pi ti star) (hti : ¬ti < text.length) :
    (pattern.drop pi).all (· == 42) = true ↔ GlobAhead pattern text pi ti star := by
  have hend : ∀ e, ti ≤ e → text.drop e = [] := fun e he => List.drop_eq_nil_of_le (by omega)
  have hstars : (pattern.drop pi).all (· == 42) = true ↔ GlobNarrow (pattern.drop pi) [] := by
    unfold GlobNarrow
    rw [Glob.narrow_end, List.all_eq_true]
    exact forall₂_congr fun c _ => beq_iff_eq
  rw [hstars]
  constructor
  · intro hn
    exact .inl (hend ti le_rfl ▸ hn)
  · rintro (hn | ⟨starPi, starTi, i, hs, hi, hn⟩)
    · rwa [hend ti le_rfl] at hn
    · obtain ⟨e, he, hn⟩ := h.ahead_of_star hs hi hn
      rwa [hend e he] at hn

/-- With as many rounds as the bound says, the loop returns and has found what there is. -/
theorem GlobWalk.run (h : GlobWalk pattern text pi ti star) {rounds : Nat}
    (hcost : globCost pattern text pi star < rounds) :
    ∃ b, globRun pattern text rounds pi ti star = some b ∧ (b = true ↔ GlobAhead pattern text pi ti star) := by
  induction rounds generalizing pi ti star with
  | zero => omega
  | succ rounds ih =>
    unfold globRun
    by_cases hti : ti < text.length
    · rw [dif_pos hti]
      by_cases hb : pattern[pi]? = some 63 ∨ pattern[pi]? = some text[ti]
      · obtain ⟨hwalk, hahead, hlt⟩ := h.step hti hb
        rw [if_pos hb, ← hahead]
        exact ih hwalk (by omega)
      · rw [if_neg hb]
        by_cases hc : pattern[pi]? = some 42
        · obtain ⟨hwalk, hahead, hlt⟩ := h.openStar hti hb hc
          rw [if_pos hc, ← hahead]
          exact ih hwalk (by omega)
        · rw [if_neg hc]
          match star, h, hcost with
          | some (starPi, starTi), h, hcost =>
            obtain ⟨hwalk, hahead, hlt⟩ := h.back hti hb hc
            rw [← hahead]
            exact ih hwalk (by omega)
          | none, h, _ =>
            refine ⟨false, rfl, fun he => (by cases he), ?_⟩
            rintro (hn | ⟨starPi, starTi, i, hs, -⟩)
            · exact absurd hn (h.stuck hti hb hc)
            · cases hs
    · rw [dif_neg hti]
      exact ⟨_, rfl, h.atEnd hti⟩

end

theorem globLoop_of_run {pattern text : Bytes} {rounds pi ti : Nat} {star : Option (Nat × Nat)} {b : Bool}
    (h : globRun pattern text rounds pi ti star = some b) : globLoop pattern text rounds pi ti star = b := by
  induction rounds generalizing pi ti star with
  | zero => cases h
  | succ rounds ih =>
    unfold globRun at h
    unfold globLoop
    by_cases hti : ti < text.length
    · rw [dif_pos hti] at h ⊢
      by_cases hb : pattern[pi]? = some 63 ∨ pattern[pi]? = some text[ti]
      · rw [if_pos hb] at h ⊢
        exact ih h
      · rw [if_neg hb] at h ⊢
        by_cases hc : pattern[pi]? = some 42
        · rw [if_pos hc] at h ⊢
          exact ih h
        · rw [if_neg hc] at h ⊢
          match star, h with
          | some (starPi, starTi), h => exact ih h
          | none, h => exact Option.some.inj h
    · rw [dif_neg hti] at h ⊢
      exact Option.some.inj h

theorem globRun_spec (pattern text : Bytes) {rounds : Nat}
    (h : text.length * (pattern.length + 1) + pattern.length < rounds) :
    ∃ b, globRun pattern text rounds 0 0 none = some b ∧ (b = true ↔ GlobNarrow pattern text) := by
  have hwalk : GlobWalk pattern text 0 0 none := ⟨Nat.zero_le _, Nat.zero_le _, fun _ _ hs => by cases hs⟩
  obtain ⟨b, hrun, hb⟩ := hwalk.run (by unfold globCost; exact h)
  refine ⟨b, hrun, hb.trans ⟨?_, .inl⟩⟩
  rintro (hn | ⟨starPi, starTi, i, hs, -⟩)
  · exact hn
  · cases hs

theorem matchGlob_iff (pattern text : Bytes) : matchGlob pattern text = true ↔ GlobNarrow pattern text := by
  have henough : text.length * (pattern.length + 1) + pattern.length <
      (text.length + 2) * (pattern.length + text.length + 2) := by
    have hmul := Nat.mul_le_mul_left text.length (show pattern.length + 1 ≤ pattern.length + text.length + 2 by omega)
    rw [Nat.add_mul]
    omega
  obtain ⟨b, hrun, hb⟩ := globRun_spec pattern text henough
  rw [matchGlob, globLoop_of_run hrun, hb]

theorem globRun_returns (pattern text : Bytes) : ∃ n, ∀ rounds, n ≤ rounds →
    globRun pattern text rounds 0 0 none = some (matchGlob pattern text) := by
  refine ⟨text.length * (pattern.length + 1) + pattern.length + 1, fun rounds hle => ?_⟩
  obtain ⟨b, hrun, hb⟩ := globRun_spec pattern text (Nat.lt_of_succ_le hle)
  rw [hrun, Option.some.injEq, Bool.eq_iff_iff, hb, matchGlob_iff]

/-! ## Top theorem -/

/-- `matchGlob` and its copy always return, and are right where the text does not match, or matches in such a way that
every `*` whose place in the text holds a `*` stands for just this byte; so wherever text or pattern is without `*`. -/
theorem globRight_iff (pattern text : Bytes) :
    (GlobRight matchGlob pattern text ↔ (GlobMatches pattern text → GlobNarrow pattern text)) ∧
      (GlobRight PubSubHub.matchPattern pattern text ↔ (GlobMatches pattern text → GlobNarrow pattern text)) ∧
      (42 ∉ text ∨ 42 ∉ pattern → GlobMatches pattern text → GlobNarrow pattern text) := by
  have hiff : GlobRight matchGlob pattern text ↔ (GlobMatches pattern text → GlobNarrow pattern text) := by
    unfold GlobRight
    rw [matchGlob_iff]
    constructor
    · rintro ⟨-, h⟩
      exact h.mpr
    · intro h
      exact ⟨globRun_returns pattern text, Glob.Narrow.matches, h⟩
  exact ⟨hiff, hiff, Glob.Matches.narrow⟩

theorem globRight_iff_prefix : GlobMatches (lit "a*") (lit "abc") → GlobNarrow (lit "a*") (lit "abc") :=
  (globRight_iff (lit "a*") (lit "abc")).2.2 (.inl (by decide))

/-- A `*` that is to stand for `*a` and stands for `*`. -/
theorem star_misses_star :
    GlobMatches (lit "*") (lit "*a") ∧ matchGlob (lit "*") (lit "*a") = false ∧
      PubSubHub.matchPattern (lit "*") (lit "*a") = false := by
  refine ⟨?_, by decide, by decide⟩
  show Glob.Matches 63 42 [42] [42, 97]
  unfold Glob.Matches
  rw [if_pos rfl]
  exact ⟨[42, 97], [], rfl, rfl⟩

end Kv
