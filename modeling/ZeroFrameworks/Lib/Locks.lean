import Mathlib.Data.Fintype.Defs
import Mathlib.Data.Finset.Basic
import Mathlib.Data.Finset.Lattice.Lemmas

/-!
# Locks that are not taken twice

What one thread does with a family of locks: it takes them and gives them back, one after the other.
`Disciplined held es` says that from the locks in `held` on it never asks for one that it has, and gives back
none that it has not.  A guard takes some locks and gives all of them back:

    Disciplined ∅ (during gs ++ es) ↔ Disciplined ∅ es   (disciplined_free)
    Disciplined univ (during gs ++ es) ↔ gs = [] ∧ Disciplined univ es   (disciplined_full)
-/

namespace Locks

variable {ι : Type} [DecidableEq ι]

/-! ## Events -/

inductive LockEvent (ι : Type) where
  | lock (i : ι) (write : Bool)
  | unlock (i : ι)

/-- No lock is asked for while it is held, and none is given back while it is not. -/
def Disciplined (held : Finset ι) : List (LockEvent ι) → Prop
  | [] => True
  | .lock i _ :: es => i ∉ held ∧ Disciplined (insert i held) es
  | .unlock i :: es => i ∈ held ∧ Disciplined (held.erase i) es

def lockAll (l : List ι) (write : Bool) : List (LockEvent ι) := l.map fun i => .lock i write

def unlockAll (l : List ι) : List (LockEvent ι) := l.map .unlock

/-- A guard on some locks, each taken once. -/
structure Guard (ι : Type) where
  locks : List ι
  write : Bool
  once : locks.Nodup
  takes : locks ≠ []

/-- The lives of guards, one after the other. -/
def during (gs : List (Guard ι)) : List (LockEvent ι) :=
  gs.flatMap fun g => lockAll g.locks g.write ++ unlockAll g.locks

/-! ## Lemmas -/

variable {held : Finset ι} {l : List ι} {write : Bool} {es : List (LockEvent ι)}

theorem disciplined_lockAll (hl : l.Nodup) (hfree : ∀ i ∈ l, i ∉ held) :
    Disciplined held (lockAll l write ++ es) ↔ Disciplined (held ∪ l.toFinset) es := by
  induction l generalizing held with
  | nil =>
    rw [List.toFinset_nil, Finset.union_empty]
    exact Iff.rfl
  | cons i l ih =>
    obtain ⟨hi, hl⟩ := List.nodup_cons.mp hl
    have hrest : ∀ j ∈ l, j ∉ insert i held := by
      intro j hj hmem
      rcases Finset.mem_insert.mp hmem with rfl | hheld
      · exact hi hj
      · exact hfree j (List.mem_cons_of_mem i hj) hheld
    have hunion : insert i held ∪ l.toFinset = held ∪ (i :: l).toFinset := by
      rw [List.toFinset_cons, Finset.insert_union, Finset.union_insert]
    rw [← hunion, ← ih hl hrest]
    exact and_iff_right (hfree i List.mem_cons_self)

/-- Whoever holds a lock of the list may not take them all. -/
theorem not_disciplined_lockAll {i : ι} (hi : i ∈ l) (hheld : i ∈ held) :
    ¬Disciplined held (lockAll l write ++ es) := by
  induction l generalizing held with
  | nil => cases hi
  | cons j l ih =>
    rintro ⟨hj, hrest⟩
    rcases List.mem_cons.mp hi with rfl | hi
    · exact hj hheld
    · exact ih hi (Finset.mem_insert_of_mem hheld) hrest

theorem disciplined_unlockAll (hl : l.Nodup) :
    Disciplined held (unlockAll l ++ es) ↔ (∀ i ∈ l, i ∈ held) ∧ Disciplined (held \ l.toFinset) es := by
  induction l generalizing held with
  | nil =>
    rw [List.toFinset_nil, Finset.sdiff_empty]
    exact (and_iff_right fun i hi => nomatch hi).symm
  | cons i l ih =>
    obtain ⟨hi, hl⟩ := List.nodup_cons.mp hl
    have hsdiff : held.erase i \ l.toFinset = held \ (i :: l).toFinset := by
      rw [List.toFinset_cons, Finset.sdiff_insert, Finset.erase_sdiff_comm]
    have hrest : (∀ j ∈ l, j ∈ held.erase i) ↔ ∀ j ∈ l, j ∈ held := by
      refine forall₂_congr fun j hj => Finset.mem_erase.trans (and_iff_right ?_)
      rintro rfl
      exact hi hj
    rw [List.forall_mem_cons, ← hsdiff, and_assoc, ← hrest, ← ih hl]
    exact Iff.rfl

/-! ## Guards -/

variable {gs : List (Guard ι)}

theorem disciplined_free : Disciplined ∅ (during gs ++ es) ↔ Disciplined ∅ es := by
  induction gs with
  | nil => exact Iff.rfl
  | cons g gs ih =>
    have hshape : during (g :: gs) ++ es = lockAll g.locks g.write ++ (unlockAll g.locks ++ (during gs ++ es)) := by
      simp only [during, List.flatMap_cons, List.append_assoc]
    rw [hshape, disciplined_lockAll g.once fun i _ => Finset.notMem_empty i, disciplined_unlockAll g.once,
      Finset.empty_union, Finset.sdiff_self, ih]
    exact and_iff_right fun i hi => List.mem_toFinset.mpr hi

/-- With all locks held there is no place for a guard. -/
theorem disciplined_full [Fintype ι] :
    Disciplined Finset.univ (during gs ++ es) ↔ gs = [] ∧ Disciplined Finset.univ es := by
  cases gs with
  | nil => exact (and_iff_right rfl).symm
  | cons g gs =>
    have hshape : during (g :: gs) ++ es = lockAll g.locks g.write ++ (unlockAll g.locks ++ (during gs ++ es)) := by
      simp only [during, List.flatMap_cons, List.append_assoc]
    obtain ⟨i, hi⟩ := List.exists_mem_of_ne_nil _ g.takes
    rw [hshape]
    exact iff_of_false (not_disciplined_lockAll hi (Finset.mem_univ i)) fun h => by cases h.1

end Locks
