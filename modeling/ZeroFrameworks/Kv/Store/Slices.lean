import ZeroFrameworks.Kv.Store.Lists
import ZeroFrameworks.Kv.Store.Views

/-!
# Positions of a list

LRANGE and LTRIM walk from `start` to `stop` after `normalizeListRange`, LINDEX and LSET go to one position.  A negative
index counts from the end.  The bodies are given a second time with the int64 arithmetic and the accesses of the source,
where an overflow or an access outside the list gives `none`.

    LRANGE = LTRIM's rest = the positions max 0 s .. min t (len - 1)   (list_slices)
    LINDEX and LSET go to the position of the index, or report that there is none   (list_slices)
    no addition overflows and no access is outside the list   (list_slices)
-/

namespace Kv

/-! ## Algorithm -/

/-- An addition of int64 values that does not overflow. -/
def add64 (a b : Int) : Option Int := if IsI64 (a + b) then some (a + b) else none

/-- `list[(size_t)i]` inside the list. -/
def elementAt {α : Type} (l : List α) (i : Int) : Option α := if 0 ≤ i then l[i.toNat]? else none

namespace Checked

variable {α : Type}

/-- `if(index < 0) index = len + index;` -/
def counted (len index : Int) : Option Int := if index < 0 then add64 len index else some index

/-- `if(stop >= len) stop = len - 1;` -/
def cutOff (len stop : Int) : Option Int := if len ≤ stop then add64 len (-1) else some stop

def normalizeListRange (len start stop : Int) : Option (Int × Int) :=
  if len ≤ 0 then some (0, -1)
  else do
    let start ← counted len start
    let stop ← counted len stop
    let start := if start < 0 then 0 else start
    let stop ← cutOff len stop
    return (start, stop)

/-- `for(int64_t i = start; i <= stop; ++i) out.push_back(list[(size_t)i]);` -/
def copyRange (l : List α) (stop i : Int) (out : List α) : Option (List α) :=
  if i ≤ stop then
    (elementAt l i).bind fun x => (add64 i 1).bind fun _ => copyRange l stop (i + 1) (out ++ [x])
  else some out
termination_by (stop + 1 - i).toNat
decreasing_by omega

/-- What `listRange` returns and `listTrim` keeps. -/
def listRange (l : List α) (start stop : Int) : Option (List α) := do
  let r ← normalizeListRange l.length start stop
  if r.2 < r.1 ∨ (l.length : Int) ≤ 0 then some [] else copyRange l r.2 r.1 []

/-- The position that `listIndex` reads and `listSet` writes; the inner `none` is out of range. -/
def listPos (l : List α) (index : Int) : Option (Option Int) := do
  let idx ← counted l.length index
  return if idx < 0 ∨ (l.length : Int) ≤ idx then none else some idx

def listIndex (l : List α) (index : Int) : Option (Option α) := do
  match ← listPos l index with
  | none => return none
  | some idx => (elementAt l idx).map some

def listSet (l : List α) (index : Int) (value : α) : Option (Option (List α)) := do
  match ← listPos l index with
  | none => return none
  | some idx => (elementAt l idx).map fun _ => some (l.set idx.toNat value)

end Checked

/-! ## Specification -/

/-- A position counted from the end when it is negative. -/
def fromEnd (len : Nat) (index : Int) : Int := if index < 0 then len + index else index

/-- The elements at positions `i` with `max 0 s ≤ i ≤ min t (len - 1)`. -/
def selected {α : Type} (start stop : Int) (l : List α) : List α :=
  (l.zipIdx.filter fun p => decide (max 0 (fromEnd l.length start) ≤ p.2 ∧
    (p.2 : Int) ≤ min (fromEnd l.length stop) (l.length - 1))).map Prod.fst

/-- What the commands do with the list `l` under a key. -/
structure ListSlices {F : Type} [Platform F] (env : Env) (db : Int) (key : Bytes) (s : KvStore F) (l : List Bytes) (d : Int)
    (start stop index : Int) (value : Bytes) : Prop where
  range : (KvStore.listRange db key start stop env s).1 = .ok (selected start stop l)
  range_view : (KvStore.listRange db key start stop env s).2.view env.now = s.view env.now
  trim : (KvStore.listTrim db key start stop env s).1 = .ok 1
  trim_view : (KvStore.listTrim db key start stop env s).2.view env.now =
    View.set (s.view env.now) db key (shownList (selected start stop l) d)
  index_view : (KvStore.listIndex db key index env s).2.view env.now = s.view env.now
  inside : ∀ (i : Nat) (hi : i < l.length), fromEnd l.length index = i →
    (KvStore.listIndex db key index env s).1 = .ok (some l[i]) ∧
      (KvStore.listSet db key index value env s).1 = .ok () ∧
      (KvStore.listSet db key index value env s).2.view env.now =
        View.set (s.view env.now) db key (some (Field.list.item (l.set i value) d)) ∧
      Checked.listIndex l index = some (some l[i]) ∧ Checked.listSet l index value = some (some (l.set i value))
  outside : (∀ i : Nat, i < l.length → fromEnd l.length index ≠ i) →
    (KvStore.listIndex db key index env s).1 = .ok none ∧
      (KvStore.listSet db key index value env s).1 = .error (lit "ERR index out of range") ∧
      (KvStore.listSet db key index value env s).2.view env.now = s.view env.now ∧
      Checked.listIndex l index = some none ∧ Checked.listSet l index value = some none
  range_checked : Checked.listRange l start stop = some (selected start stop l)

/-! ## Lemmas -/

section arithmetic

variable {α : Type} {l out : List α} {start stop index i : Int}

theorem add64_eq {a b : Int} (h : IsI64 (a + b)) : add64 a b = some (a + b) := if_pos h

/-- The elements at the positions from `a` to below `b`. -/
theorem zipIdx_filter_interval (l : List α) (a b : Nat) : ∀ k, ((l.zipIdx k).filter fun p =>
    decide (a ≤ p.2 ∧ p.2 < b)).map Prod.fst = (l.take (b - k)).drop (a - k) := by
  induction l with
  | nil => intro k; simp
  | cons x xs ih =>
    intro k
    rw [List.zipIdx_cons, List.filter_cons]
    by_cases hb : k < b
    · rw [show b - k = b - (k + 1) + 1 by omega, List.take_succ_cons]
      by_cases ha : a ≤ k
      · rw [if_pos (decide_eq_true ⟨ha, hb⟩), List.map_cons, ih, Nat.sub_eq_zero_of_le ha,
          Nat.sub_eq_zero_of_le (Nat.le_succ_of_le ha)]
        rfl
      · rw [if_neg (by simp [ha]), ih, show a - k = a - (k + 1) + 1 by omega, List.drop_succ_cons]
    · rw [if_neg (by simp [hb]), ih, Nat.sub_eq_zero_of_le (by omega : b ≤ k), Nat.sub_eq_zero_of_le (by omega : b ≤ k + 1)]
      simp

theorem selected_eq : selected start stop l =
    (l.take (min (fromEnd l.length stop) (l.length - 1) + 1).toNat).drop (max 0 (fromEnd l.length start)).toNat := by
  have h := zipIdx_filter_interval l (max 0 (fromEnd l.length start)).toNat
    (min (fromEnd l.length stop) (l.length - 1) + 1).toNat 0
  rw [Nat.sub_zero, Nat.sub_zero] at h
  rw [← h]
  unfold selected
  congr 2
  funext p
  refine decide_eq_decide.mpr ?_
  omega

theorem elementAt_eq (hlo : 0 ≤ i) (hhi : i.toNat < l.length) : elementAt l i = some l[i.toNat] := by
  unfold elementAt
  rw [if_pos hlo, List.getElem?_eq_getElem hhi]

theorem normalizeListRange_eq (h : l ≠ []) : normalizeListRange l.length start stop =
    (max 0 (fromEnd l.length start), min (fromEnd l.length stop) (l.length - 1)) := by
  have hpos := List.length_pos_of_ne_nil h
  unfold normalizeListRange fromEnd
  rw [if_neg (by omega)]
  refine Prod.ext ?_ ?_ <;> dsimp only
  · generalize (if start < 0 then (l.length : Int) + start else start) = s
    omega
  · generalize (if stop < 0 then (l.length : Int) + stop else stop) = t
    omega

theorem listSlice_eq : (listSlice l start stop).getD [] = selected start stop l := by
  rw [selected_eq]
  unfold listSlice
  by_cases hl : l = []
  · subst hl
    simp
  · rw [normalizeListRange_eq hl]
    dsimp only
    split
    · refine (List.drop_eq_nil_of_le ?_).symm
      have hpos := List.length_pos_of_ne_nil hl
      rw [List.length_take]
      omega
    · rfl

namespace Checked

variable (hlen : l.length < 2 ^ 63)
include hlen

theorem counted_eq {k : Int} (hk : IsI64 k) : counted l.length k = some (fromEnd l.length k) := by
  obtain ⟨hlo, hhi⟩ := hk
  unfold counted fromEnd
  split
  · exact add64_eq ⟨by omega, by omega⟩
  · rfl

theorem cutOff_eq {k : Int} : cutOff l.length k = some (if (l.length : Int) ≤ k then (l.length : Int) - 1 else k) := by
  unfold cutOff
  split
  · exact add64_eq ⟨by omega, by omega⟩
  · rfl

theorem normalizeListRange_eq (hl : l ≠ []) (hstart : IsI64 start) (hstop : IsI64 stop) :
    normalizeListRange l.length start stop = some (Kv.normalizeListRange l.length start stop) := by
  have hpos := List.length_pos_of_ne_nil hl
  unfold normalizeListRange Kv.normalizeListRange
  rw [if_neg (by omega), if_neg (by omega), counted_eq hlen hstart, counted_eq hlen hstop]
  simp only [Option.bind_eq_bind, Option.bind_some, cutOff_eq hlen]
  rfl

theorem copyRange_eq (hstop : stop < l.length) : ∀ (n : Nat) (i : Int) (out : List α), (stop + 1 - i).toNat = n → 0 ≤ i →
    copyRange l stop i out = some (out ++ (l.take (stop + 1).toNat).drop i.toNat) := by
  intro n
  induction n with
  | zero =>
    intro i out hn hi
    unfold copyRange
    rw [if_neg (by omega), List.drop_eq_nil_of_le (by rw [List.length_take]; omega), List.append_nil]
  | succ n ih =>
    intro i out hn hi
    have hin : i.toNat < l.length := by omega
    have hdrop : (l.take (stop + 1).toNat).drop i.toNat = l[i.toNat] :: (l.take (stop + 1).toNat).drop (i + 1).toNat := by
      rw [List.drop_eq_getElem_cons (by rw [List.length_take]; omega), List.getElem_take, show (i + 1).toNat = i.toNat + 1 by omega]
    unfold copyRange
    rw [if_pos (by omega), elementAt_eq hi hin, Option.bind_some, add64_eq ⟨by omega, by omega⟩, Option.bind_some,
      ih (i + 1) _ (by omega) (by omega), hdrop, List.append_assoc, List.singleton_append]

theorem listRange_eq (hstart : IsI64 start) (hstop : IsI64 stop) :
    listRange l start stop = some (selected start stop l) := by
  rw [← listSlice_eq]
  unfold listRange listSlice
  by_cases hl : l = []
  · subst hl
    simp [normalizeListRange, Kv.normalizeListRange]
  · rw [normalizeListRange_eq hlen hl hstart hstop]
    simp only [Option.bind_eq_bind, Option.bind_some]
    split
    · rfl
    · have hnorm : Kv.normalizeListRange l.length start stop = _ := Kv.normalizeListRange_eq hl
      have hpos := List.length_pos_of_ne_nil hl
      rw [copyRange_eq hlen (by rw [hnorm]; dsimp only; omega) _ _ _ rfl (by rw [hnorm]; dsimp only; omega)]
      rfl

theorem listPos_eq (hindex : IsI64 index) : listPos l index = some (if fromEnd l.length index < 0 ∨
    (l.length : Int) ≤ fromEnd l.length index then none else some (fromEnd l.length index)) := by
  unfold listPos
  rw [counted_eq hlen hindex]
  rfl

end Checked

end arithmetic

section commands

variable {F : Type} [Platform F] {env : Env} {db : Int} {key : Bytes} {s : KvStore F} {l : List Bytes} {d : Int}
  {start stop index : Int}

variable (h : Field.list.held (s.live env.now db key) = .value l d)
include h

theorem view_set_shown : View.set (s.view env.now) db key (some (Field.list.item l d)) = s.view env.now := by
  rw [← shows_iff.mp h, View.set_eq]

theorem listRange_of_value : (KvStore.listRange db key start stop env s).1 = .ok (selected start stop l) ∧
    (KvStore.listRange db key start stop env s).2.view env.now = s.view env.now := by
  refine ⟨(onField_of_value _ Field.whole_list h).1.trans ?_,
    (onField_of_value _ Field.whole_list h).2.trans (view_set_shown h)⟩
  rw [← listSlice_eq]
  rfl

theorem listTrim_of_value : (KvStore.listTrim db key start stop env s).1 = .ok 1 ∧
    (KvStore.listTrim db key start stop env s).2.view env.now =
      View.set (s.view env.now) db key (shownList (selected start stop l) d) := by
  have hslice : (listSlice l start stop).getD [] = selected start stop l := listSlice_eq
  refine ⟨(onField_of_value _ Field.whole_list h).1.trans ?_, (onField_of_value _ Field.whole_list h).2.trans ?_⟩
  · dsimp only
    split
    · rfl
    · split <;> rfl
  · congr 1
    rw [← hslice]
    unfold shownList
    dsimp only
    split
    next hl => rw [hl]; rfl
    next kept hl =>
      rw [hl, Option.getD_some]
      split <;> rfl

theorem inside_of_value (value : Bytes) (i : Nat) (hi : i < l.length) (hpos : fromEnd l.length index = i) :
    (KvStore.listIndex db key index env s).1 = .ok (some l[i]) ∧
      (KvStore.listSet db key index value env s).1 = .ok () ∧
      (KvStore.listSet db key index value env s).2.view env.now =
        View.set (s.view env.now) db key (some (Field.list.item (l.set i value) d)) := by
  have hat : listPos l index = some i := by
    unfold fromEnd at hpos
    unfold listPos
    rw [hpos]
    dsimp only
    rw [if_neg (by omega), Int.toNat_natCast]
  refine ⟨(onField_of_value _ Field.whole_list h).1.trans ?_, (onField_of_value _ Field.whole_list h).1.trans ?_,
    (onField_of_value _ Field.whole_list h).2.trans ?_⟩
  · dsimp only
    rw [Option.bind_some, hat, Option.bind_some, List.getElem?_eq_getElem hi]
  · dsimp only
    rw [hat]
  · dsimp only
    rw [hat]
    rfl

theorem outside_of_value (value : Bytes) (hout : ∀ i : Nat, i < l.length → fromEnd l.length index ≠ i) :
    (KvStore.listIndex db key index env s).1 = .ok none ∧
      (KvStore.listSet db key index value env s).1 = .error (lit "ERR index out of range") ∧
      (KvStore.listSet db key index value env s).2.view env.now = s.view env.now := by
  have hat : listPos l index = none := by
    unfold listPos
    refine if_pos ?_
    by_contra hin
    refine hout (fromEnd l.length index).toNat ?_ ?_ <;> unfold fromEnd <;> omega
  refine ⟨(onField_of_value _ Field.whole_list h).1.trans ?_, (onField_of_value _ Field.whole_list h).1.trans ?_,
    (onField_of_value _ Field.whole_list h).2.trans ?_⟩
  · dsimp only
    rw [Option.bind_some, hat, Option.bind_none]
  · dsimp only
    rw [hat]
  · dsimp only
    rw [hat]
    exact view_set_shown h

theorem listIndex_view : (KvStore.listIndex db key index env s).2.view env.now = s.view env.now :=
  (onField_of_value _ Field.whole_list h).2.trans (view_set_shown h)

end commands

namespace Checked

variable {α : Type} {l : List α} {index : Int} {value : α} (hlen : l.length < 2 ^ 63) (hindex : IsI64 index)
include hlen hindex

theorem inside_eq (i : Nat) (hi : i < l.length) (hpos : Kv.fromEnd l.length index = i) :
    listIndex l index = some (some l[i]) ∧ listSet l index value = some (some (l.set i value)) := by
  have hat : listPos l index = some (some (i : Int)) := by
    rw [listPos_eq hlen hindex, hpos, if_neg (by omega)]
  have helem : elementAt l (i : Int) = some l[i] := by
    unfold elementAt
    rw [if_pos (by omega), Int.toNat_natCast, List.getElem?_eq_getElem hi]
  constructor
  · unfold listIndex
    rw [hat]
    simp only [Option.bind_eq_bind, Option.bind_some, helem]
    rfl
  · unfold listSet
    rw [hat]
    simp only [Option.bind_eq_bind, Option.bind_some, helem]
    rfl

theorem outside_eq (hout : ∀ i : Nat, i < l.length → Kv.fromEnd l.length index ≠ i) :
    listIndex l index = some none ∧ listSet l index value = some none := by
  have hat : listPos l index = some none := by
    rw [listPos_eq hlen hindex, if_pos]
    by_contra hin
    exact hout (Kv.fromEnd l.length index).toNat (by omega) (by omega)
  constructor
  · unfold listIndex
    rw [hat]
    rfl
  · unfold listSet
    rw [hat]
    rfl

end Checked

/-! ## Top theorem -/

variable {F : Type} [Platform F]

theorem list_slices (env : Env) (db : Int) (key : Bytes) (s : KvStore F) (l : List Bytes) (d : Int)
    (h : Field.list.held (s.live env.now db key) = .value l d) (hlen : l.length < 2 ^ 63)
    (start stop index : Int) (hstart : IsI64 start) (hstop : IsI64 stop) (hindex : IsI64 index) (value : Bytes) :
    ListSlices env db key s l d start stop index value where
  range := (listRange_of_value h).1
  range_view := (listRange_of_value h).2
  trim := (listTrim_of_value h).1
  trim_view := (listTrim_of_value h).2
  index_view := listIndex_view h
  inside i hi hpos := by
    obtain ⟨hindexed, hset, hview⟩ := inside_of_value h value i hi hpos
    exact ⟨hindexed, hset, hview, Checked.inside_eq hlen hindex i hi hpos⟩
  outside hout := by
    obtain ⟨hindexed, hset, hview⟩ := outside_of_value h value hout
    exact ⟨hindexed, hset, hview, Checked.outside_eq hlen hindex hout⟩
  range_checked := Checked.listRange_eq hlen hstart hstop

/-- A list of three elements. -/
def abcStore : KvStore Int := KvStore.empty.putEntry 0 (lit "l") (some { type := .list, list := [lit "a", lit "b", lit "c"] })

theorem list_slices_abc :
    ListSlices { now := 0 } 0 (lit "l") abcStore [lit "a", lit "b", lit "c"] 0 (-2) 100 0 (lit "x") :=
  list_slices _ _ _ _ _ _ (by rfl) (by decide) _ _ _ (by decide) (by decide) (by decide) _

end Kv
