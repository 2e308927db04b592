import ZeroFrameworks.Kv.Store.Ranks
import ZeroFrameworks.Lib.Shares

/-!
# ZADD

The pairs of a call are taken one after the other, and each is looked at against the score that its member has by then.  What
becomes of a member depends on its own pairs alone.

    the score of a member = its score before, after its own pairs   (zaddAll_getElem?)
    added = the members that were not there before and are now   (zaddAll_added)
    added + updated = the pairs of each member that change its score, over all members  (zaddAll_changes)
-/

namespace Kv

/-! ## Specification -/

section specification

variable {F : Type} [LinearOrder F]

/-- NX only adds, XX only updates, GT and LT only raise and lower. -/
def ZaddOptions.permits (opt : ZaddOptions) (old : Option F) (x : F) : Bool :=
  old.elim (!opt.xx) fun y => !opt.nx && (!opt.gt || decide (y < x)) && (!opt.lt || decide (x < y))

/-- A member's score after one of its pairs. -/
def scoreNext (opt : ZaddOptions) (old : Option F) (x : F) : Option F := if opt.permits old x then some x else old

/-- A member's score after its pairs. -/
def scoreAfter (opt : ZaddOptions) (old : Option F) (xs : List F) : Option F := xs.foldl (scoreNext opt) old

/-- How many of a member's pairs change its score. -/
def changes (opt : ZaddOptions) : Option F → List F → Nat
  | _, [] => 0
  | old, x :: xs => (if scoreNext opt old x = old then 0 else 1) + changes opt (scoreNext opt old x) xs

/-- The scores a call gives for a member. -/
def scoresFor (m : Bytes) (pairs : List (F × Bytes)) : List F := (pairs.filter fun p => p.2 = m).map Prod.fst

/-- The members a call names. -/
def named (members : List (F × Bytes)) : Finset Bytes := (members.map Prod.snd).toFinset

/-- A sorted set as a key shows it; an empty one shows nothing. -/
def shownZset (z : BMap F) (deadline : Int) : Option (Item F) := if z.isEmpty then none else some (Field.zset.item z deadline)

/-- The key holds the sorted set `z`, where a missing one is empty. -/
def HoldsZset [Platform F] (now db : Int) (key : Bytes) (s : KvStore F) (z : BMap F) (d : Int) : Prop :=
  Field.zset.held (s.live now db key) = .value z d ∨ s.live now db key = none ∧ z = ∅ ∧ d = 0

/-- What a call leaves of the sorted set `z`, and its reply. -/
structure Zadd [Platform F] (env : Env) (db : Int) (key : Bytes) (s : KvStore F) (z : BMap F) (d : Int) (opt : ZaddOptions)
    (members : List (F × Bytes)) (z' : BMap F) : Prop where
  view : (KvStore.zaddOpt db key opt members env s).2.view env.now = View.set (s.view env.now) db key (shownZset z' d)
  score : ∀ m, z'[m]? = scoreAfter opt z[m]? (scoresFor m members)
  added : opt.ch = false → (KvStore.zaddOpt db key opt members env s).1 =
    .ok (((named members).filter fun m => z[m]? = none ∧ z'[m]? ≠ none).card : Int)
  changed : opt.ch = true → (KvStore.zaddOpt db key opt members env s).1 =
    .ok ((∑ m ∈ named members, changes opt z[m]? (scoresFor m members) : Nat) : Int)
  once : (members.map Prod.snd).Nodup → opt.ch = true → (KvStore.zaddOpt db key opt members env s).1 =
    .ok (((named members).filter fun m => z'[m]? ≠ z[m]?).card : Int)

end specification

/-! ## Lemmas -/

section steps

variable {F : Type} [LinearOrder F] [Platform F] [OrderedScores F] {opt : ZaddOptions} {a : Int × Int × BMap F}
  {pair : F × Bytes} {m : Bytes} {z : BMap F} {old : Option F} {x : F}

omit [Platform F] [OrderedScores F] in
theorem scoreNext_none : scoreNext opt (none : Option F) x = if opt.xx then none else some x := by
  unfold scoreNext ZaddOptions.permits
  cases opt.xx <;> rfl

omit [Platform F] [OrderedScores F] in
theorem scoreNext_some (y : F) : scoreNext opt (some y) x =
    if opt.nx || (opt.gt && decide (x ≤ y)) || (opt.lt && decide (y ≤ x)) then some y else some x := by
  unfold scoreNext ZaddOptions.permits
  rw [Option.elim_some]
  by_cases hle : x ≤ y
  · by_cases hge : y ≤ x
    · cases opt.nx <;> cases opt.gt <;> cases opt.lt <;> simp [hle, hge, not_lt.mpr]
    · cases opt.nx <;> cases opt.gt <;> cases opt.lt <;> simp [hle, hge, not_le.mp hge, not_lt.mpr hle]
  · cases opt.nx <;> cases opt.gt <;> cases opt.lt <;> simp [hle, not_le.mp hle, (not_le.mp hle).le, not_lt.mpr (not_le.mp hle).le]

theorem zaddStep_spec : KvStore.zaddStep opt a pair =
    (a.1 + (if a.2.2[pair.2]? = none ∧ scoreNext opt a.2.2[pair.2]? pair.1 ≠ none then 1 else 0),
      a.2.1 + (if a.2.2[pair.2]? ≠ none ∧ scoreNext opt a.2.2[pair.2]? pair.1 ≠ a.2.2[pair.2]? then 1 else 0),
      if scoreNext opt a.2.2[pair.2]? pair.1 = a.2.2[pair.2]? then a.2.2 else a.2.2.insert pair.2 pair.1) := by
  unfold KvStore.zaddStep
  cases hold : a.2.2[pair.2]? with
  | none =>
    dsimp only
    rw [scoreNext_none]
    by_cases hxx : opt.xx = true
    · simp [hxx]
    · simp [hxx]
  | some y =>
    dsimp only
    rw [scoreNext_some, OrderedScores.lt_eq, OrderedScores.lt_eq, OrderedScores.eq_eq, OrderedScores.eq_eq]
    have hle : ∀ u v : F, (decide (u < v) || decide (u = v)) = decide (u ≤ v) := by
      intro u v
      rw [Bool.eq_iff_iff, Bool.or_eq_true, decide_eq_true_iff, decide_eq_true_iff, decide_eq_true_iff, le_iff_lt_or_eq]
    rw [hle, hle]
    by_cases hnx : opt.nx = true
    · simp [hnx]
    · by_cases hgt : (opt.gt && decide (pair.1 ≤ y)) = true
      · simp [hnx, hgt]
      · by_cases hlt : (opt.lt && decide (y ≤ pair.1)) = true
        · simp [hnx, hgt, hlt]
        · by_cases heq : y = pair.1
          · simp [hnx, heq]
          · simp [hnx, hgt, hlt, heq, eq_comm]

omit [Platform F] [OrderedScores F] in
theorem scoreNext_of_ne (h : scoreNext opt old x ≠ old) : scoreNext opt old x = some x := by
  unfold scoreNext at h ⊢
  split
  · rfl
  next hp => exact absurd (if_neg hp) h

theorem zaddStep_getElem? : (KvStore.zaddStep opt a pair).2.2[m]? =
    if m = pair.2 then scoreNext opt a.2.2[m]? pair.1 else a.2.2[m]? := by
  rw [zaddStep_spec]
  dsimp only
  split
  next hsame =>
    split
    next hm => rw [hm, hsame]
    next => rfl
  next hchange =>
    rw [Std.ExtTreeMap.getElem?_insert]
    by_cases hm : m = pair.2
    · subst hm
      rw [if_pos Std.ReflCmp.compare_self, if_pos rfl, scoreNext_of_ne hchange]
    · rw [if_neg fun hc => hm (Std.LawfulEqCmp.eq_of_compare hc).symm, if_neg hm]

omit [LinearOrder F] [Platform F] [OrderedScores F] in
theorem scoresFor_cons_self (pairs : List (F × Bytes)) : scoresFor pair.2 (pair :: pairs) = pair.1 :: scoresFor pair.2 pairs := by
  unfold scoresFor
  rw [List.filter_cons_of_pos (by simp), List.map_cons]

omit [LinearOrder F] [Platform F] [OrderedScores F] in
theorem scoresFor_cons_of_ne (h : m ≠ pair.2) (pairs : List (F × Bytes)) :
    scoresFor m (pair :: pairs) = scoresFor m pairs := by
  unfold scoresFor
  rw [List.filter_cons_of_neg (by simpa using fun h' => h h'.symm)]

theorem zaddAll_getElem? (pairs : List (F × Bytes)) : ∀ a : Int × Int × BMap F,
    (pairs.foldl (KvStore.zaddStep opt) a).2.2[m]? = scoreAfter opt a.2.2[m]? (scoresFor m pairs) := by
  induction pairs with
  | nil => exact fun _ => rfl
  | cons pair pairs ih =>
    intro a
    rw [List.foldl_cons, ih, zaddStep_getElem?]
    by_cases hm : m = pair.2
    · subst hm
      rw [if_pos rfl, scoresFor_cons_self]
      rfl
    · rw [if_neg hm, scoresFor_cons_of_ne hm]

variable {S : Finset Bytes}

theorem sum_cons_pair (opt : ZaddOptions) (a : Int × Int × BMap F) (hmem : pair.2 ∈ S) (f : Option F → List F → Nat) (first : Nat)
    (hfirst : ∀ xs, f a.2.2[pair.2]? (pair.1 :: xs) = first + f (scoreNext opt a.2.2[pair.2]? pair.1) xs)
    (pairs : List (F × Bytes)) : ∑ m ∈ S, f a.2.2[m]? (scoresFor m (pair :: pairs)) =
      first + ∑ m ∈ S, f (KvStore.zaddStep opt a pair).2.2[m]? (scoresFor m pairs) := by
  have hexchange := Shares.sum_exchange (f := fun m => f a.2.2[m]? (scoresFor m (pair :: pairs)))
    (g := fun m => f (KvStore.zaddStep opt a pair).2.2[m]? (scoresFor m pairs)) hmem (by
      intro m _ hm
      rw [zaddStep_getElem?, if_neg hm, scoresFor_cons_of_ne hm])
  rw [scoresFor_cons_self, hfirst, zaddStep_getElem?, if_pos rfl] at hexchange
  omega

theorem zaddAll_changes (pairs : List (F × Bytes)) (hS : ∀ p ∈ pairs, p.2 ∈ S) : ∀ a : Int × Int × BMap F,
    (pairs.foldl (KvStore.zaddStep opt) a).1 + (pairs.foldl (KvStore.zaddStep opt) a).2.1 =
      a.1 + a.2.1 + (∑ m ∈ S, changes opt a.2.2[m]? (scoresFor m pairs) : Nat) := by
  induction pairs with
  | nil =>
    intro a
    simp [scoresFor, changes]
  | cons pair pairs ih =>
    intro a
    have hsum := sum_cons_pair opt a (hS pair List.mem_cons_self) (changes opt) _ (fun xs => rfl) pairs
    rw [List.foldl_cons, ih (fun p hp => hS p (List.mem_cons_of_mem _ hp)), hsum, zaddStep_spec]
    dsimp only
    cases hold : a.2.2[pair.2]? with
    | none =>
      by_cases hnext : scoreNext opt none pair.1 = none
      · simp [hnext]
      · simp [hnext]
        omega
    | some y =>
      by_cases hnext : scoreNext opt (some y) pair.1 = some y
      · simp [hnext]
      · simp [hnext]
        omega

/-- Whether a member is added by its pairs. -/
def adds (opt : ZaddOptions) (old : Option F) (xs : List F) : Nat := if old = none ∧ scoreAfter opt old xs ≠ none then 1 else 0

omit [Platform F] [OrderedScores F] in
theorem scoreAfter_some (y : F) : ∀ xs, scoreAfter opt (some y) xs ≠ none := by
  intro xs
  induction xs generalizing y with
  | nil => exact Option.some_ne_none y
  | cons x xs ih =>
    show scoreAfter opt (scoreNext opt (some y) x) xs ≠ none
    unfold scoreNext
    split
    · exact ih x
    · exact ih y

omit [Platform F] [OrderedScores F] in
theorem adds_cons (xs : List F) : adds opt old (x :: xs) =
    (if old = none ∧ scoreNext opt old x ≠ none then 1 else 0) + adds opt (scoreNext opt old x) xs := by
  unfold adds
  have hcons : scoreAfter opt old (x :: xs) = scoreAfter opt (scoreNext opt old x) xs := rfl
  rw [hcons]
  cases old with
  | some y =>
    have hnext : scoreNext opt (some y) x ≠ none := scoreAfter_some y [x]
    simp [hnext]
  | none =>
    cases hnext : scoreNext opt none x with
    | none => simp
    | some y => simp [scoreAfter_some y xs]

theorem zaddAll_added (pairs : List (F × Bytes)) (hS : ∀ p ∈ pairs, p.2 ∈ S) : ∀ a : Int × Int × BMap F,
    (pairs.foldl (KvStore.zaddStep opt) a).1 = a.1 + (∑ m ∈ S, adds opt a.2.2[m]? (scoresFor m pairs) : Nat) := by
  induction pairs with
  | nil =>
    intro a
    simp [scoresFor, adds, scoreAfter]
  | cons pair pairs ih =>
    intro a
    have hsum := sum_cons_pair opt a (hS pair List.mem_cons_self) (adds opt) _ (fun xs => adds_cons xs) pairs
    rw [List.foldl_cons, ih (fun p hp => hS p (List.mem_cons_of_mem _ hp)), hsum, zaddStep_spec]
    dsimp only
    split
    · push_cast
      omega
    · push_cast
      omega

end steps

section calls

variable {F : Type} [LinearOrder F] [Platform F] [OrderedScores F] {opt : ZaddOptions} {members : List (F × Bytes)}
  {env : Env} {db : Int} {key : Bytes} {s : KvStore F} {z : BMap F} {d : Int}

/-- The counters and the set after the pairs of a call. -/
abbrev zaddAll (opt : ZaddOptions) (members : List (F × Bytes)) (z : BMap F) : Int × Int × BMap F :=
  members.foldl (KvStore.zaddStep opt) (0, 0, z)

omit [OrderedScores F] [LinearOrder F] in
theorem zaddAll_xx (h : opt.xx = true) : zaddAll opt members ∅ = (0, 0, ∅) := by
  induction members with
  | nil => rfl
  | cons pair members ih =>
    have hstep : KvStore.zaddStep opt (0, 0, (∅ : BMap F)) pair = (0, 0, ∅) := by
      unfold KvStore.zaddStep
      dsimp only
      rw [Std.ExtTreeMap.getElem?_empty]
      exact if_pos h
    rw [zaddAll, List.foldl_cons, hstep]
    exact ih

omit [OrderedScores F] [LinearOrder F] in
theorem zaddOpt_eq (hne : members ≠ []) (hnx : (opt.nx && opt.xx) = false) (hgt : (opt.gt && opt.lt) = false)
    (h : HoldsZset env.now db key s z d) :
    (KvStore.zaddOpt db key opt members env s).1 =
        .ok (if opt.ch then (zaddAll opt members z).1 + (zaddAll opt members z).2.1 else (zaddAll opt members z).1) ∧
      (KvStore.zaddOpt db key opt members env s).2.view env.now =
        View.set (s.view env.now) db key (shownZset (zaddAll opt members z).2.2 d) := by
  have hempty : members.isEmpty = false := by simpa using hne
  unfold KvStore.zaddOpt
  rw [if_neg (by simp [hempty]), if_neg (by simp [hnx]), if_neg (by simp [hgt])]
  obtain h | ⟨h, rfl, rfl⟩ := h
  · refine ⟨(onField_of_value _ Field.whole_zset h).1.trans ?_, (onField_of_value _ Field.whole_zset h).2.trans ?_⟩
    · rw [if_neg (by simp)]
      dsimp only [Option.getD_some]
      split <;> rfl
    · rw [if_neg (by simp)]
      congr 1
      dsimp only [Option.getD_some]
      unfold shownZset
      split <;> rfl
  · refine ⟨(onField_of_absent (L := Field.zset) _ h).1.trans ?_, (onField_of_absent (L := Field.zset) _ h).2.trans ?_⟩
    · by_cases hxx : opt.xx = true
      · rw [if_pos (by simp [hxx]), zaddAll_xx hxx]
        simp
      · rw [if_neg (by simp [hxx])]
        dsimp only [Option.getD_none]
        split <;> rfl
    · congr 1
      by_cases hxx : opt.xx = true
      · rw [if_pos (by simp [hxx]), zaddAll_xx hxx]
        rfl
      · rw [if_neg (by simp [hxx])]
        dsimp only [Option.getD_none]
        unfold shownZset
        split <;> rfl

omit [Platform F] [OrderedScores F] [LinearOrder F] in
theorem mem_named {p : F × Bytes} (hp : p ∈ members) : p.2 ∈ named members :=
  List.mem_toFinset.mpr (List.mem_map_of_mem hp)

omit [Platform F] [OrderedScores F] [LinearOrder F] in
theorem scoresFor_of_nodup (hnodup : (members.map Prod.snd).Nodup) {p : F × Bytes} (hp : p ∈ members) :
    scoresFor p.2 members = [p.1] := by
  induction members with
  | nil => cases hp
  | cons q members ih =>
    rw [List.map_cons, List.nodup_cons] at hnodup
    obtain rfl | hp := List.mem_cons.mp hp
    · rw [scoresFor_cons_self]
      congr 1
      unfold scoresFor
      rw [List.map_eq_nil_iff, List.filter_eq_nil_iff]
      intro r hr heq
      exact hnodup.1 (List.mem_map.mpr ⟨r, hr, of_decide_eq_true heq⟩)
    · rw [scoresFor_cons_of_ne, ih hnodup.2 hp]
      intro heq
      exact hnodup.1 (heq ▸ List.mem_map_of_mem hp)

/-- Every permitted combination of options. -/
theorem zaddOpt_spec (hne : members ≠ []) (hnx : (opt.nx && opt.xx) = false) (hgt : (opt.gt && opt.lt) = false)
    (h : HoldsZset env.now db key s z d) :
    Zadd env db key s z d opt members (zaddAll opt members z).2.2 := by
  obtain ⟨hreply, hview⟩ := zaddOpt_eq hne hnx hgt h
  have hscore : ∀ m, (zaddAll opt members z).2.2[m]? = scoreAfter opt z[m]? (scoresFor m members) := fun m =>
    zaddAll_getElem? members (0, 0, z)
  have hadded : (zaddAll opt members z).1 = (∑ m ∈ named members, adds opt z[m]? (scoresFor m members) : Nat) := by
    rw [zaddAll_added members (fun p hp => mem_named hp) (0, 0, z), zero_add]
  have hchanged : (zaddAll opt members z).1 + (zaddAll opt members z).2.1 =
      (∑ m ∈ named members, changes opt z[m]? (scoresFor m members) : Nat) := by
    rw [zaddAll_changes members (fun p hp => mem_named hp) (0, 0, z), zero_add, zero_add]
  refine ⟨hview, hscore, ?_, ?_, ?_⟩
  · intro hch
    rw [hreply, if_neg (by simp [hch]), hadded, Finset.card_filter]
    congr 3
    funext m
    unfold adds
    rw [hscore]
  · intro hch
    rw [hreply, if_pos hch, hchanged]
  · intro hnodup hch
    rw [hreply, if_pos hch, hchanged, Finset.card_filter]
    congr 2
    refine Finset.sum_congr rfl fun m hm => ?_
    obtain ⟨p, hp, rfl⟩ := List.mem_map.mp (List.mem_toFinset.mp hm)
    rw [hscore, scoresFor_of_nodup hnodup hp]
    unfold changes changes
    rw [Nat.add_zero]
    show (if scoreNext opt z[p.2]? p.1 = z[p.2]? then 0 else 1) = if scoreNext opt z[p.2]? p.1 ≠ z[p.2]? then 1 else 0
    by_cases hsame : scoreNext opt z[p.2]? p.1 = z[p.2]?
    · rw [if_pos hsame, if_neg (by simpa using hsame)]
    · rw [if_neg hsame, if_pos hsame]

omit [OrderedScores F] [LinearOrder F] in
theorem zaddOpt_refused (hne : members ≠ []) (h : (opt.nx && opt.xx) = true ∨ (opt.gt && opt.lt) = true) :
    (∃ e, (KvStore.zaddOpt db key opt members env s).1 = .error e) ∧ (KvStore.zaddOpt db key opt members env s).2 = s := by
  have hempty : members.isEmpty = false := by simpa using hne
  unfold KvStore.zaddOpt
  rw [if_neg (by simp [hempty])]
  by_cases hnx : (opt.nx && opt.xx) = true
  · rw [if_pos hnx]
    exact ⟨⟨_, rfl⟩, rfl⟩
  · rw [if_neg hnx, if_pos (h.resolve_left hnx)]
    exact ⟨⟨_, rfl⟩, rfl⟩

end calls

end Kv
