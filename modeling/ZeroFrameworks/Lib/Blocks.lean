import Mathlib.Algebra.Ring.Nat
import Mathlib.Order.Interval.Finset.Nat

/-!
# Turns over consecutive blocks

Blocks of given sizes lie one after the other, and `slot` says which block a place is in.  Who takes turns modulo
the whole length starts anywhere and has been everywhere once after as many turns.

    slot ws t = some i  for exactly ws[i] places t below ws.sum   (count_slot)
    turns n c is a permutation of List.range n   (turns_perm)
    slot ws is some i in exactly ws[i] of ws.sum turns   (count_slot_turns)
-/

namespace Blocks

/-! ## Algorithm -/

/-- The block that the place `t` is in. -/
def slot : List Nat → Nat → Option Nat
  | [], _ => none
  | w :: ws, t => if t < w then some 0 else (slot ws (t - w)).map (· + 1)

/-- `n` turns modulo `n`, from `c`. -/
def turns (n c : Nat) : List Nat := (List.range n).map fun k => (c + k) % n

/-! ## Lemmas -/

@[simp] theorem slot_nil (t : Nat) : slot [] t = none := rfl

theorem slot_cons_lt {w t : Nat} (ws : List Nat) (h : t < w) : slot (w :: ws) t = some 0 := if_pos h

theorem slot_cons_add (w : Nat) (ws : List Nat) (t : Nat) : slot (w :: ws) (w + t) = (slot ws t).map (· + 1) := by
  rw [slot, if_neg (by omega), Nat.add_sub_cancel_left]

theorem isSome_slot (ws : List Nat) (t : Nat) : (slot ws t).isSome = decide (t < ws.sum) := by
  induction ws generalizing t with
  | nil => simp
  | cons w ws ih =>
    rcases Nat.lt_or_ge t w with h | h
    · rw [slot_cons_lt ws h]
      exact (decide_eq_true (by rw [List.sum_cons]; omega)).symm
    · obtain ⟨s, rfl⟩ := Nat.exists_eq_add_of_le h
      rw [slot_cons_add, Option.isSome_map, ih]
      simp

theorem count_map_succ_zero (l : List (Option Nat)) : (l.map (·.map (· + 1))).count (some 0) = 0 := by
  apply List.count_eq_zero_of_not_mem
  intro h
  obtain ⟨o, -, ho⟩ := List.mem_map.mp h
  cases o with
  | none => cases ho
  | some i => cases ho

theorem count_map_succ (l : List (Option Nat)) (i : Nat) :
    (l.map (·.map (· + 1))).count (some (i + 1)) = l.count (some i) :=
  List.count_map_of_injective l _ (Option.map_injective (add_left_injective 1)) (some i)

theorem count_slot (ws : List Nat) (i : Nat) : ((List.range ws.sum).map (slot ws)).count (some i) = ws.getD i 0 := by
  induction ws generalizing i with
  | nil => rfl
  | cons w ws ih =>
    -- the first `w` places are in the first block, the others where they are among the rest
    have hfirst : (List.range w).map (slot (w :: ws)) = List.replicate w (some 0) := by
      rw [List.eq_replicate_iff]
      refine ⟨by simp, ?_⟩
      intro o ho
      obtain ⟨t, ht, rfl⟩ := List.mem_map.mp ho
      exact slot_cons_lt ws (List.mem_range.mp ht)
    have hrest : ((List.range ws.sum).map (w + ·)).map (slot (w :: ws)) =
        ((List.range ws.sum).map (slot ws)).map (·.map (· + 1)) := by
      rw [List.map_map, List.map_map]
      exact List.map_congr_left fun t _ => slot_cons_add w ws t
    rw [List.sum_cons, List.range_add, List.map_append, hfirst, hrest, List.count_append]
    cases i with
    | zero => rw [count_map_succ_zero, List.count_replicate_self, List.getD_cons_zero, Nat.add_zero]
    | succ i =>
      rw [count_map_succ, ih, List.getD_cons_succ, List.count_replicate, if_neg (by simp), Nat.zero_add]

theorem turns_perm (n c : Nat) : (turns n c).Perm (List.range n) := by
  have hinj : ((List.range n).map fun k => (c + k) % n).Nodup := by
    refine List.Nodup.map_on ?_ List.nodup_range
    intro x hx y hy hxy
    have hx' := List.mem_range.mp hx
    have hy' := List.mem_range.mp hy
    have hsame : c + x = c + y :=
      Nat.mod_injOn_Ico c n (Finset.mem_coe.mpr (Finset.mem_Ico.mpr (by omega)))
        (Finset.mem_coe.mpr (Finset.mem_Ico.mpr (by omega))) hxy
    omega
  refine (List.subperm_of_subset hinj ?_).perm_of_length_le (by simp)
  intro i hi
  obtain ⟨k, hk, rfl⟩ := List.mem_map.mp hi
  exact List.mem_range.mpr (Nat.mod_lt _ (by have := List.mem_range.mp hk; omega))

/-! ## Top theorem -/

theorem count_slot_turns (ws : List Nat) (c i : Nat) :
    ((turns ws.sum c).map (slot ws)).count (some i) = ws.getD i 0 := by
  rw [((turns_perm ws.sum c).map (slot ws)).count_eq, count_slot]

end Blocks
