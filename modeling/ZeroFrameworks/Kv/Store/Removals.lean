import ZeroFrameworks.Kv.Store.Lists
import ZeroFrameworks.Kv.Store.Views

/-!
# LREM

`listRem` erases in place: two loops with an iterator that stays where it erased, and one that goes from the last index down.
The count of occurrences from the end is `-count`, which overflows for the least int64: what the loop then counts up to is
what the build makes of it.

    the loops = removed   (listRemLoops_eq)
    all, the first count or the last -count occurrences go, and no others
      ↔ count is not the least int64, or the value does not occur more often than the build's -count   (lremRemoves_iff)
-/

namespace Kv

/-! ## Algorithm -/

section loops

variable {α : Type} [DecidableEq α]

/-- `for(it = begin(); it != end() && more;) if(*it == value) { it = erase(it); ++removed; } else ++it;` -/
def eraseForward (value : α) (more : Int → Bool) (l : List α) (it : Nat) (removed : Int) : List α × Int :=
  if h : it < l.length then
    if more removed then
      if l[it] = value then eraseForward value more (l.eraseIdx it) it (removed + 1)
      else eraseForward value more l (it + 1) removed
    else (l, removed)
  else (l, removed)
termination_by l.length - it
decreasing_by
  · rw [List.length_eraseIdx_of_lt h]
    omega
  · omega

/-- `for(i = size - 1; i >= 0 && removed < need; --i) if(list[i] == value) { erase(begin() + i); ++removed; }`; the
argument is `i + 1`. -/
def eraseBackward (value : α) (need : Int) : Nat → List α → Int → List α × Int
  | 0, l, removed => (l, removed)
  | i + 1, l, removed =>
    if removed < need then
      if l[i]? = some value then eraseBackward value need i (l.eraseIdx i) (removed + 1)
      else eraseBackward value need i l removed
    else (l, removed)

end loops

/-- The three loops of `listRem`. -/
def listRemLoops (F : Type) [Platform F] (count : Int) (value : Bytes) (l : List Bytes) : List Bytes × Int :=
  if count = 0 then eraseForward value (fun _ => true) l 0 0
  else if 0 < count then eraseForward value (fun removed => decide (removed < count)) l 0 0
  else eraseBackward value (KvStore.negated F count) l.length l 0

/-! ## Specification -/

/-- `l'` is `l` without the first `n` occurrences of `value`, or without any if there are fewer; `m` have gone. -/
def WithoutFirst (n : Nat) (value : Bytes) (l l' : List Bytes) (m : Nat) : Prop :=
  ∃ a b, l = a ++ b ∧ l' = a.filter (· ≠ value) ++ b ∧ a.count value = m ∧ m = min n (l.count value)

def WithoutLast (n : Nat) (value : Bytes) (l l' : List Bytes) (m : Nat) : Prop :=
  ∃ a b, l = a ++ b ∧ l' = a ++ b.filter (· ≠ value) ∧ b.count value = m ∧ m = min n (l.count value)

/-- What LREM leaves of `l` and how many elements it removes. -/
def Lrem (count : Int) (value : Bytes) (l l' : List Bytes) (m : Nat) : Prop :=
  (count = 0 ∧ l' = l.filter (· ≠ value) ∧ m = l.count value) ∨
    (0 < count ∧ WithoutFirst count.natAbs value l l' m) ∨ (count < 0 ∧ WithoutLast count.natAbs value l l' m)

/-- The command leaves what it should, deletes the key if that is nothing, and replies with the number removed. -/
def LremRemoves {F : Type} [Platform F] (env : Env) (db : Int) (key : Bytes) (s : KvStore F) (l : List Bytes) (d : Int)
    (count : Int) (value : Bytes) : Prop :=
  ∃ l' m, Lrem count value l l' m ∧ (KvStore.listRem db key count value env s).1 = .ok (m : Int) ∧
    (KvStore.listRem db key count value env s).2.view env.now = View.set (s.view env.now) db key (shownList l' d)

/-! ## Loops -/

section loops

variable {value : Bytes} {n : Int}

theorem removeFirst_of_nonpos (h : n ≤ 0) : ∀ l, removeFirst value n l = (l, 0)
  | [] => rfl
  | _ :: _ => if_pos h

theorem removeFirst_hit {x : Bytes} (h : 0 < n) (hx : x = value) (xs : List Bytes) : removeFirst value n (x :: xs) =
    ((removeFirst value (n - 1) xs).1, (removeFirst value (n - 1) xs).2 + 1) := by
  rw [removeFirst, if_neg (by omega), if_pos hx]

theorem removeFirst_miss {x : Bytes} (h : 0 < n) (hx : x ≠ value) (xs : List Bytes) : removeFirst value n (x :: xs) =
    (x :: (removeFirst value n xs).1, (removeFirst value n xs).2) := by
  rw [removeFirst, if_neg (by omega), if_neg hx]

theorem eraseForward_end (value : Bytes) (more : Int → Bool) (l : List Bytes) (removed : Int) :
    eraseForward value more l l.length removed = (l, removed) := by
  rw [eraseForward, dif_neg (Nat.lt_irrefl _)]

/-- One round of the loop, at the element behind `l`. -/
theorem eraseForward_cons (value x : Bytes) (more : Int → Bool) (l xs : List Bytes) (removed : Int) :
    eraseForward value more (l ++ x :: xs) l.length removed =
      if more removed then
        if x = value then eraseForward value more (l ++ xs) l.length (removed + 1)
        else eraseForward value more ((l ++ [x]) ++ xs) (l ++ [x]).length removed
      else (l ++ x :: xs, removed) := by
  have hlt : l.length < (l ++ x :: xs).length := by simp
  have herase : (l ++ x :: xs).eraseIdx l.length = l ++ xs := by
    rw [List.eraseIdx_append_of_length_le (Nat.le_refl _), Nat.sub_self, List.eraseIdx_cons_zero]
  rw [eraseForward, dif_pos hlt, List.getElem_append_right (Nat.le_refl _), herase, List.append_assoc, List.singleton_append,
    List.length_append, List.length_singleton]
  simp only [Nat.sub_self, List.getElem_cons_zero]

/-- Every occurrence behind the iterator's place goes. -/
theorem eraseForward_all (value : Bytes) : ∀ (rest : List Bytes) (l : List Bytes) (removed : Int),
    eraseForward value (fun _ => true) (l ++ rest) l.length removed =
      (l ++ rest.filter (· ≠ value), removed + (rest.filter (· = value)).length) := by
  intro rest
  induction rest with
  | nil =>
    intro l removed
    rw [List.append_nil, eraseForward_end]
    simp
  | cons x xs ih =>
    intro l removed
    rw [eraseForward_cons, if_pos rfl]
    by_cases hx : x = value
    · rw [if_pos hx, ih, List.filter_cons_of_neg (by simpa using hx), List.filter_cons_of_pos (by simpa using hx)]
      refine Prod.ext rfl ?_
      dsimp only
      rw [List.length_cons]
      omega
    · rw [if_neg hx, ih, List.filter_cons_of_pos (by simpa using hx), List.filter_cons_of_neg (by simpa using hx),
        List.append_assoc, List.singleton_append]

/-- The first of the occurrences behind the iterator's place go, as many as are still to be removed. -/
theorem eraseForward_first (value : Bytes) (count : Int) : ∀ (rest : List Bytes) (l : List Bytes) (removed : Int),
    eraseForward value (fun removed => decide (removed < count)) (l ++ rest) l.length removed =
      (l ++ (removeFirst value (count - removed) rest).1, removed + (removeFirst value (count - removed) rest).2) := by
  intro rest
  induction rest with
  | nil =>
    intro l removed
    rw [List.append_nil, eraseForward_end]
    simp [removeFirst]
  | cons x xs ih =>
    intro l removed
    rw [eraseForward_cons]
    by_cases hmore : removed < count
    · rw [if_pos (decide_eq_true hmore)]
      by_cases hx : x = value
      · rw [if_pos hx, removeFirst_hit (by omega) hx, ih, show count - (removed + 1) = count - removed - 1 by omega]
        refine Prod.ext rfl ?_
        dsimp only
        omega
      · rw [if_neg hx, removeFirst_miss (by omega) hx, ih, List.append_assoc, List.singleton_append]
    · rw [if_neg (by simpa using hmore), removeFirst_of_nonpos (by omega)]
      simp

/-- The last of the occurrences in front of the index go. -/
theorem eraseBackward_eq (value : Bytes) (need : Int) : ∀ (front : List Bytes) (back : List Bytes) (removed : Int),
    eraseBackward value need front.length (front.reverse ++ back) removed =
      ((removeFirst value (need - removed) front).1.reverse ++ back,
        removed + (removeFirst value (need - removed) front).2) := by
  intro front
  induction front with
  | nil =>
    intro back removed
    simp [eraseBackward, removeFirst]
  | cons x xs ih =>
    intro back removed
    have hlist : (x :: xs).reverse ++ back = xs.reverse ++ (x :: back) := by simp
    have hget : (xs.reverse ++ (x :: back))[xs.length]? = some x := by
      rw [List.getElem?_append_right (by simp)]
      simp
    rw [List.length_cons, hlist]
    unfold eraseBackward
    by_cases hmore : removed < need
    · rw [if_pos hmore, hget]
      by_cases hx : x = value
      · have herase : (xs.reverse ++ x :: back).eraseIdx xs.length = xs.reverse ++ back := by
          rw [List.eraseIdx_append_of_length_le (by simp)]
          simp
        rw [if_pos (congrArg some hx), removeFirst_hit (by omega) hx, herase, ih, show need - (removed + 1) = need - removed - 1 by omega]
        refine Prod.ext rfl ?_
        dsimp only
        omega
      · rw [if_neg fun h => hx (Option.some.inj h), removeFirst_miss (by omega) hx, ih]
        simp
    · rw [if_neg hmore, removeFirst_of_nonpos (by omega)]
      simp

theorem listRemLoops_eq (F : Type) [Platform F] (count : Int) (value : Bytes) (l : List Bytes) :
    listRemLoops F count value l = KvStore.removed F count value l := by
  unfold listRemLoops KvStore.removed
  split
  · have h := eraseForward_all value l [] 0
    simpa using h
  · split
    · have h := eraseForward_first value count l [] 0
      simpa using h
    · have h := eraseBackward_eq value (KvStore.negated F count) l.reverse [] 0
      simpa using h

end loops

/-! ## Lemmas -/

section lists

variable {value : Bytes} {l l' : List Bytes} {n m : Nat} {count : Int}

theorem removeFirst_spec (value : Bytes) : ∀ (l : List Bytes) (n : Nat), ∃ m : Nat,
    (removeFirst value n l).2 = (m : Int) ∧ WithoutFirst n value l (removeFirst value n l).1 m := by
  intro l
  induction l with
  | nil => exact fun n => ⟨0, rfl, [], [], rfl, rfl, rfl, by simp⟩
  | cons x xs ih =>
    intro n
    cases n with
    | zero =>
      rw [removeFirst_of_nonpos (by omega)]
      exact ⟨0, rfl, [], x :: xs, rfl, rfl, rfl, by simp⟩
    | succ n =>
      by_cases hx : x = value
      · obtain ⟨m, hm, a, b, hl, hl', ha, hmin⟩ := ih n
        rw [removeFirst_hit (by omega) hx, show ((n + 1 : Nat) : Int) - 1 = n by omega]
        refine ⟨m + 1, by rw [hm]; rfl, x :: a, b, by rw [hl]; rfl, ?_, ?_, ?_⟩
        · rw [List.filter_cons_of_neg (by simpa using hx)]
          exact hl'
        · rw [hx, List.count_cons_self, ha]
        · rw [hx, List.count_cons_self, hmin]
          omega
      · obtain ⟨m, hm, a, b, hl, hl', ha, hmin⟩ := ih (n + 1)
        rw [removeFirst_miss (by omega) hx]
        refine ⟨m, hm, x :: a, b, by rw [hl]; rfl, ?_, ?_, ?_⟩
        · rw [List.filter_cons_of_pos (by simpa using hx), List.cons_append, ← hl']
        · rw [List.count_cons_of_ne hx, ha]
        · rw [List.count_cons_of_ne hx, hmin]

theorem WithoutFirst.reverse (h : WithoutFirst n value l.reverse l' m) : WithoutLast n value l l'.reverse m := by
  obtain ⟨a, b, hl, rfl, ha, hm⟩ := h
  refine ⟨b.reverse, a.reverse, ?_, ?_, by rw [List.count_reverse, ha], by rw [hm, List.count_reverse]⟩
  · rw [← List.reverse_append, ← hl, List.reverse_reverse]
  · rw [List.reverse_append, List.filter_reverse]

/-- What the third loop removes: as many of the last occurrences as `-count` says, if that is positive. -/
theorem removed_neg (F : Type) [Platform F] (hneg : count < 0) (value : Bytes) (l : List Bytes) : ∃ m : Nat,
    (KvStore.removed F count value l).2 = (m : Int) ∧
      WithoutLast (KvStore.negated F count).toNat value l (KvStore.removed F count value l).1 m := by
  have hfirst : removeFirst value (KvStore.negated F count) l.reverse =
      removeFirst value ((KvStore.negated F count).toNat : Int) l.reverse := by
    rcases Int.le_total 0 (KvStore.negated F count) with hpos | hnon
    · rw [Int.toNat_of_nonneg hpos]
    · rw [removeFirst_of_nonpos hnon, removeFirst_of_nonpos (by omega)]
  obtain ⟨m, hm, hwithout⟩ := removeFirst_spec value l.reverse (KvStore.negated F count).toNat
  unfold KvStore.removed
  rw [if_neg (by omega), if_neg (by omega), hfirst]
  exact ⟨m, hm, hwithout.reverse⟩

theorem negated_least_lt (F : Type) [Platform F] (h : count = -2 ^ 63) : (KvStore.negated F count).toNat < 2 ^ 63 := by
  unfold KvStore.negated
  rw [if_pos h]
  have hi := isI64_i64 (Platform.negLeast F)
  obtain ⟨-, hhi⟩ := hi
  omega

/-- For a count that is not positive the right number goes only where `-count` does not keep an occurrence. -/
theorem min_negated_iff (F : Type) [Platform F] (hneg : count < 0) (k : Nat) :
    min (KvStore.negated F count).toNat k = min count.natAbs k ↔
      (count = -2 ^ 63 → k ≤ (KvStore.negated F count).toNat) := by
  by_cases hleast : count = -2 ^ 63
  · have hlt := negated_least_lt F hleast
    omega
  · have hneg : (KvStore.negated F count).toNat = count.natAbs := by
      unfold KvStore.negated
      rw [if_neg hleast]
      omega
    omega

theorem removed_spec (F : Type) [Platform F]
    (hok : count = -2 ^ 63 → l.count value ≤ (KvStore.negated F count).toNat) : ∃ m : Nat,
    (KvStore.removed F count value l).2 = (m : Int) ∧ Lrem count value l (KvStore.removed F count value l).1 m := by
  rcases Int.lt_trichotomy count 0 with hneg | hzero | hpos
  · obtain ⟨m, hm, a, b, hl, hl', hb, hmin⟩ := removed_neg F hneg value l
    rw [(min_negated_iff F hneg _).mpr hok] at hmin
    exact ⟨m, hm, .inr (.inr ⟨hneg, a, b, hl, hl', hb, hmin⟩)⟩
  · unfold KvStore.removed
    rw [if_pos hzero]
    refine ⟨l.count value, ?_, .inl ⟨hzero, rfl, rfl⟩⟩
    dsimp only
    rw [List.count_eq_length_filter]
    congr 2
    exact List.filter_congr fun x _ => (beq_eq_decide x value).symm
  · unfold KvStore.removed
    rw [if_neg (by omega), if_pos hpos]
    obtain ⟨m, hm, hwithout⟩ := removeFirst_spec value l count.natAbs
    rw [show (count.natAbs : Int) = count by omega] at hm hwithout
    exact ⟨m, hm, .inr (.inl ⟨hpos, hwithout⟩)⟩

theorem Lrem.number_of_neg (h : Lrem count value l l' m) (hneg : count < 0) : m = min count.natAbs (l.count value) := by
  obtain ⟨hzero, -⟩ | ⟨hpos, -⟩ | ⟨-, -, -, -, -, -, hm⟩ := h
  · omega
  · omega
  · exact hm

end lists

variable {F : Type} [Platform F]

theorem listRem_of_value {env : Env} {db : Int} {key : Bytes} {s : KvStore F} {l : List Bytes} {d : Int}
    (h : Field.list.held (s.live env.now db key) = .value l d) (count : Int) (value : Bytes) :
    (KvStore.listRem db key count value env s).1 = .ok (KvStore.removed F count value l).2 ∧
      (KvStore.listRem db key count value env s).2.view env.now =
        View.set (s.view env.now) db key (shownList (KvStore.removed F count value l).1 d) := by
  refine ⟨(onField_of_value _ Field.whole_list h).1.trans ?_, (onField_of_value _ Field.whole_list h).2.trans ?_⟩
  · dsimp only
    split <;> rfl
  · congr 1
    unfold shownList
    dsimp only
    split <;> rfl

/-! ## Top theorem -/

theorem lremRemoves_iff (env : Env) (db : Int) (key : Bytes) (s : KvStore F) (l : List Bytes) (d : Int)
    (h : Field.list.held (s.live env.now db key) = .value l d) (count : Int) (value : Bytes) :
    LremRemoves env db key s l d count value ↔
      (count = -2 ^ 63 → l.count value ≤ (i64 (Platform.negLeast F)).toNat) := by
  have hneed : count = -2 ^ 63 → KvStore.negated F count = i64 (Platform.negLeast F) := fun hleast => if_pos hleast
  obtain ⟨hreply, hview⟩ := listRem_of_value h count value
  constructor
  · rintro ⟨l', m, hlrem, hm, -⟩ hleast
    obtain ⟨m', hm', -, -, -, -, -, hmin⟩ := removed_neg F (show count < 0 by omega) value l
    have hsame : m' = m := by
      have heq := Except.ok.inj (hreply.symm.trans hm)
      omega
    rw [hsame, hlrem.number_of_neg (by omega)] at hmin
    rw [← hneed hleast]
    exact (min_negated_iff F (by omega) _).mp hmin.symm hleast
  · intro hok
    obtain ⟨m, hm, hlrem⟩ := removed_spec F fun hleast => by
      rw [hneed hleast]
      exact hok hleast
    exact ⟨_, m, hlrem, by rw [hreply, hm], hview⟩

/-- A list with an element twice. -/
def twiceStore : KvStore Int := KvStore.empty.putEntry 0 (lit "l") (some { type := .list, list := [lit "a", lit "b", lit "a"] })

theorem lremRemoves_last : LremRemoves { now := 0 } 0 (lit "l") twiceStore [lit "a", lit "b", lit "a"] 0 (-1) (lit "a") :=
  (lremRemoves_iff _ _ _ _ _ _ (by rfl) _ _).mpr (by decide)

/-- LREM with the least int64 removes one of the two occurrences. -/
theorem lrem_least : ¬ LremRemoves { now := 0 } 0 (lit "l") twiceStore [lit "a", lit "b", lit "a"] 0 (-2 ^ 63) (lit "a") := by
  rintro ⟨l', m, hlrem, hm, -⟩
  have hnumber := hlrem.number_of_neg (by decide)
  have hreply : (KvStore.listRem 0 (lit "l") (-2 ^ 63) (lit "a") { now := 0 } twiceStore).1 = .ok 1 := by
    rw [(listRem_of_value (by rfl) _ _).1]
    rfl
  have hone : (1 : Int) = m := Except.ok.inj (hreply.symm.trans hm)
  have htwo : min (-2 ^ 63 : Int).natAbs ([lit "a", lit "b", lit "a"].count (lit "a")) = 2 := by decide
  omega

end Kv
