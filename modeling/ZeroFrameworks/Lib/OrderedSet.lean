import Mathlib.Data.List.Basic
import Mathlib.Data.List.Nodup
import Mathlib.Data.List.Perm.Basic
import Mathlib.Data.List.TakeWhile
import Mathlib.Order.Lattice

/-!
# Ordered sets of things with a mutable key

A `std::set` whose comparison looks at a key that the elements carry.  The set is the list of its elements;
the operations search for the place of a key, as the tree does, so they find what they look for only in
a set that is ordered by the keys of the moment (`Sorted`).

    Sorted key l → Free key x l → insert key x l ~ x :: l ∧ Sorted key (insert key x l)
    Sorted key l → x ∈ l → x :: erase key x l ~ l ∧ Sorted key (erase key x l)
-/

namespace OrderedSet

variable {α K : Type} [LinearOrder K]

/-! ## Algorithm -/

/-- The elements before the place of `k`. -/
def before (key : α → K) (k : K) (l : List α) : List α := l.takeWhile fun y => decide (key y < k)

/-- The elements from `lower_bound` on. -/
def lowerBound (key : α → K) (k : K) (l : List α) : List α := l.dropWhile fun y => decide (key y < k)

def insert (key : α → K) (x : α) (l : List α) : List α :=
  match lowerBound key (key x) l with
  | [] => l ++ [x]
  | y :: ys => if key x < key y then before key (key x) l ++ x :: y :: ys else l

/-- Whether `find` is not `end`. -/
def contains (key : α → K) (x : α) (l : List α) : Bool :=
  match lowerBound key (key x) l with
  | [] => false
  | y :: _ => !decide (key x < key y)

/-- `erase` of what `find` finds. -/
def erase (key : α → K) (x : α) (l : List α) : List α :=
  match lowerBound key (key x) l with
  | [] => l
  | y :: ys => if key x < key y then l else before key (key x) l ++ ys

def Sorted (key : α → K) (l : List α) : Prop := l.Pairwise fun a b => key a < key b

/-- No element has the key of `x`. -/
def Free (key : α → K) (x : α) (l : List α) : Prop := ∀ y ∈ l, key y ≠ key x

/-! ## Lemmas -/

variable {key : α → K} {k : K} {x : α} {l : List α}

theorem before_append_lowerBound (key : α → K) (k : K) (l : List α) : before key k l ++ lowerBound key k l = l :=
  List.takeWhile_append_dropWhile

variable {y : α}

theorem lt_of_mem_before (h : y ∈ before key k l) : key y < k := by
  have hy := List.mem_takeWhile_imp (p := fun y => decide (key y < k)) h
  exact of_decide_eq_true hy

theorem Sorted.le_of_mem_lowerBound (h : Sorted key l) (hy : y ∈ lowerBound key k l) : k ≤ key y := by
  have hsub : (lowerBound key k l).Sublist l := List.dropWhile_sublist _
  have hsorted : Sorted key (lowerBound key k l) := List.Pairwise.sublist hsub h
  cases hl : lowerBound key k l with
  | nil =>
    rw [hl] at hy
    cases hy
  | cons z zs =>
    have hz : k ≤ key z := by
      have hhead := List.head?_dropWhile_not (fun y => decide (key y < k)) l
      unfold lowerBound at hl
      rw [hl] at hhead
      simpa using hhead
    rw [hl] at hy hsorted
    obtain rfl | hy := List.mem_cons.mp hy
    · exact hz
    · exact le_of_lt (lt_of_le_of_lt hz ((List.pairwise_cons.mp hsorted).1 y hy))

/-- The keys of the moment are all that counts. -/
theorem Sorted.congr {key' : α → K} (h : Sorted key l) (hk : ∀ y ∈ l, key' y = key y) : Sorted key' l := by
  refine List.Pairwise.imp_of_mem ?_ h
  intro a b ha hb hab
  rw [hk a ha, hk b hb]
  exact hab

theorem Sorted.nodup (h : Sorted key l) : l.Nodup := by
  refine List.Pairwise.imp ?_ h
  rintro a b hab rfl
  exact lt_irrefl _ hab

section insert

theorem Sorted.insert_eq (h : Sorted key l) (hfree : Free key x l) :
    insert key x l = before key (key x) l ++ x :: lowerBound key (key x) l := by
  have hl := before_append_lowerBound key (key x) l
  unfold insert
  cases hlb : lowerBound key (key x) l with
  | nil =>
    rw [hlb, List.append_nil] at hl
    rw [hl]
  | cons y ys =>
    have hy : y ∈ lowerBound key (key x) l := by
      rw [hlb]
      exact List.mem_cons_self
    have hle := h.le_of_mem_lowerBound hy
    have hmem : y ∈ l := (List.dropWhile_sublist _).subset hy
    have hlt : key x < key y := lt_of_le_of_ne hle fun heq => hfree y hmem heq.symm
    simp only [if_pos hlt]

theorem Sorted.insert_perm (h : Sorted key l) (hfree : Free key x l) : (insert key x l).Perm (x :: l) := by
  rw [h.insert_eq hfree]
  have hperm : (before key (key x) l ++ x :: lowerBound key (key x) l).Perm
      (x :: (before key (key x) l ++ lowerBound key (key x) l)) := List.perm_middle
  rw [before_append_lowerBound] at hperm
  exact hperm

theorem Sorted.insert (h : Sorted key l) (hfree : Free key x l) : Sorted key (insert key x l) := by
  rw [h.insert_eq hfree]
  have hl := h
  rw [← before_append_lowerBound key (key x) l] at hl
  obtain ⟨hbefore, hfrom, -⟩ := List.pairwise_append.mp hl
  refine List.pairwise_append.mpr ⟨hbefore, List.pairwise_cons.mpr ⟨?_, hfrom⟩, ?_⟩
  · intro y hy
    have hmem : y ∈ l := (List.dropWhile_sublist _).subset hy
    exact lt_of_le_of_ne (h.le_of_mem_lowerBound hy) fun heq => hfree y hmem heq.symm
  · intro a ha b hb
    have hax := lt_of_mem_before ha
    obtain rfl | hb := List.mem_cons.mp hb
    · exact hax
    · exact lt_of_lt_of_le hax (h.le_of_mem_lowerBound hb)

theorem Sorted.mem_insert (h : Sorted key l) (hfree : Free key x l) :
    y ∈ OrderedSet.insert key x l ↔ y = x ∨ y ∈ l := by
  rw [(h.insert_perm hfree).mem_iff, List.mem_cons]

end insert

section erase

/-- What `find` finds is the element itself. -/
theorem Sorted.lowerBound_of_mem (h : Sorted key l) (hx : x ∈ l) :
    ∃ ys, lowerBound key (key x) l = x :: ys := by
  have hx' : x ∈ lowerBound key (key x) l := by
    have hl := hx
    rw [← before_append_lowerBound key (key x) l] at hl
    obtain hb | hf := List.mem_append.mp hl
    · exact absurd (lt_of_mem_before hb) (lt_irrefl _)
    · exact hf
  cases hlb : lowerBound key (key x) l with
  | nil =>
    rw [hlb] at hx'
    cases hx'
  | cons y ys =>
    have hy : y ∈ lowerBound key (key x) l := by
      rw [hlb]
      exact List.mem_cons_self
    have hsorted : Sorted key (y :: ys) := by
      rw [← hlb]
      exact List.Pairwise.sublist (List.dropWhile_sublist _) h
    rw [hlb] at hx'
    obtain rfl | hmem := List.mem_cons.mp hx'
    · exact ⟨ys, rfl⟩
    · have hlt := (List.pairwise_cons.mp hsorted).1 x hmem
      exact absurd hlt (not_lt_of_ge (h.le_of_mem_lowerBound hy))

theorem Sorted.contains_of_mem (h : Sorted key l) (hx : x ∈ l) : contains key x l = true := by
  obtain ⟨ys, hlb⟩ := h.lowerBound_of_mem hx
  unfold contains
  rw [hlb]
  simp

theorem Sorted.erase_perm (h : Sorted key l) (hx : x ∈ l) : (x :: erase key x l).Perm l := by
  obtain ⟨ys, hlb⟩ := h.lowerBound_of_mem hx
  have hl := before_append_lowerBound key (key x) l
  unfold erase
  rw [hlb] at hl ⊢
  simp only [lt_irrefl, if_false]
  have hperm : (x :: (before key (key x) l ++ ys)).Perm (before key (key x) l ++ x :: ys) := List.perm_middle.symm
  rw [hl] at hperm
  exact hperm

theorem Sorted.erase (h : Sorted key l) (hx : x ∈ l) : Sorted key (erase key x l) := by
  obtain ⟨ys, hlb⟩ := h.lowerBound_of_mem hx
  have hl := before_append_lowerBound key (key x) l
  have herase : OrderedSet.erase key x l = before key (key x) l ++ ys := by
    unfold OrderedSet.erase
    rw [hlb]
    simp only [lt_irrefl, if_false]
  rw [herase]
  have hsub : (before key (key x) l ++ ys).Sublist (before key (key x) l ++ x :: ys) :=
    List.Sublist.append_left (List.sublist_cons_self x ys) _
  rw [← hlb, hl] at hsub
  exact List.Pairwise.sublist hsub h

theorem Sorted.mem_erase (h : Sorted key l) (hx : x ∈ l) :
    y ∈ OrderedSet.erase key x l ↔ y ≠ x ∧ y ∈ l := by
  have hperm := h.erase_perm hx
  have hnodup : (x :: OrderedSet.erase key x l).Nodup := hperm.nodup_iff.mpr h.nodup
  rw [← hperm.mem_iff, List.mem_cons]
  constructor
  · intro hy
    refine ⟨?_, Or.inr hy⟩
    rintro rfl
    exact (List.nodup_cons.mp hnodup).1 hy
  · rintro ⟨hne, rfl | hy⟩
    · exact absurd rfl hne
    · exact hy

end erase

end OrderedSet
