import Mathlib.Data.List.Perm.Basic
import Mathlib.Data.List.Nodup

/-!
# Rankings

A finite collection in the increasing order of a strict total order.  It is the only list of its members that increases, a
sort by the order gives it, a sort the other way its reverse, and one pass for the best finds its head.

    l and l' increase and have the same members → l = l'   (Increasing.eq_of_mem)
    a list without repetitions, sorted, increases   (increasing_mergeSort)
    the best of the members, one after the other, is the first   (best_eq_head)
-/

namespace Ranking

variable {α : Type}

/-! ## Algorithm -/

/-- One pass that keeps the better one. -/
def best (better : α → α → Bool) (a : α) (l : List α) : α := l.foldl (fun best it => if better it best then it else best) a

/-! ## Specification -/

/-- `R` is a strict total order. -/
structure Strict (R : α → α → Prop) : Prop where
  irrefl : ∀ a, ¬ R a a
  trans : ∀ a b c, R a b → R b c → R a c
  total : ∀ a b, R a b ∨ a = b ∨ R b a

/-- The reverse order. -/
def flip (R : α → α → Prop) (a b : α) : Prop := R b a

/-! ## Lemmas -/

variable {R : α → α → Prop}

namespace Strict

variable (hR : Strict R)
include hR

theorem asymm {a b : α} (h : R a b) : ¬ R b a := fun h' => hR.irrefl a (hR.trans a b a h h')

theorem flip : Strict (flip R) where
  irrefl := hR.irrefl
  trans a b c hab hbc := hR.trans c b a hbc hab
  total a b := by
    obtain h | h | h := hR.total a b
    · exact .inr (.inr h)
    · exact .inr (.inl h)
    · exact .inl h

variable {l : List α}

theorem nodup (h : l.Pairwise R) : l.Nodup := by
  refine h.imp fun {a b} hab heq => ?_
  rw [heq] at hab
  exact hR.irrefl b hab

theorem eq_of_mem {l l' : List α} (h : l.Pairwise R) (h' : l'.Pairwise R) (hmem : ∀ a, a ∈ l ↔ a ∈ l') : l = l' := by
  have hperm := (List.perm_ext_iff_of_nodup (hR.nodup h) (hR.nodup h')).mpr hmem
  exact hperm.eq_of_pairwise (fun a b _ _ hab hba => absurd hba (hR.asymm hab)) h h'

variable {r : α → α → Bool}

theorem increasing_mergeSort (hr : ∀ a b, r a b = true ↔ R a b) (hl : l.Nodup) :
    (l.mergeSort fun a b => !r b a).Pairwise R := by
  have hnot : ∀ a b, (!r b a) = true ↔ ¬ R b a := by
    intro a b
    rw [Bool.not_eq_true', ← hr, Bool.not_eq_true]
  have hle : (l.mergeSort fun a b => !r b a).Pairwise fun a b => (!r b a) = true := by
    refine List.pairwise_mergeSort (fun a b c hab hbc => ?_) (fun a b => ?_) l
    · rw [hnot] at hab hbc ⊢
      intro hca
      obtain h | rfl | h := hR.total b a
      · exact hab h
      · exact hbc hca
      · exact hbc (hR.trans c a b hca h)
    · rw [Bool.or_eq_true, hnot, hnot]
      by_cases h : R b a
      · exact .inr (hR.asymm h)
      · exact .inl h
  have hnodup : (l.mergeSort fun a b => !r b a).Nodup := (List.mergeSort_perm l _).nodup_iff.mpr hl
  refine (hle.and hnodup).imp fun {a b} hab => ?_
  obtain ⟨hba, hne⟩ := hab
  obtain h | h | h := hR.total a b
  · exact h
  · exact absurd h hne
  · exact absurd h ((hnot a b).mp hba)

theorem mergeSort_flip (hr : ∀ a b, r a b = true ↔ R a b) (hl : l.Nodup) :
    (l.mergeSort fun a b => !r a b) = (l.mergeSort fun a b => !r b a).reverse := by
  have hflip : (l.mergeSort fun a b => !r a b).Pairwise (Ranking.flip R) :=
    hR.flip.increasing_mergeSort (r := fun a b => r b a) (fun a b => hr b a) hl
  refine hR.flip.eq_of_mem hflip (List.pairwise_reverse.mpr (hR.increasing_mergeSort hr hl)) fun a => ?_
  rw [List.mem_reverse, List.mem_mergeSort, List.mem_mergeSort]

/-- The best is among the members, and no other comes before it. -/
theorem best_spec (hr : ∀ a b, r a b = true ↔ R a b) (l : List α) : ∀ a,
    best r a l ∈ a :: l ∧ ∀ b ∈ a :: l, b = best r a l ∨ R (best r a l) b := by
  induction l with
  | nil =>
    intro a
    exact ⟨List.mem_cons_self, fun b hb => .inl (List.mem_singleton.mp hb)⟩
  | cons x xs ih =>
    intro a
    have hstep : best r a (x :: xs) = best r (if r x a then x else a) xs := rfl
    rw [hstep]
    obtain ⟨hmem, hleast⟩ := ih (if r x a then x else a)
    by_cases hx : r x a = true
    · rw [if_pos hx] at hmem hleast ⊢
      refine ⟨List.mem_cons_of_mem _ hmem, fun b hb => ?_⟩
      obtain rfl | hb := List.mem_cons.mp hb
      · obtain heq | hbefore := hleast x List.mem_cons_self
        · exact .inr (heq ▸ (hr x b).mp hx)
        · exact .inr (hR.trans _ x b hbefore ((hr x b).mp hx))
      · exact hleast b hb
    · rw [if_neg hx] at hmem hleast ⊢
      have hxa : x = a ∨ R a x := by
        obtain h | h | h := hR.total x a
        · exact absurd ((hr x a).mpr h) hx
        · exact .inl h
        · exact .inr h
      refine ⟨?_, fun b hb => ?_⟩
      · obtain h | h := List.mem_cons.mp hmem
        · rw [h]
          exact List.mem_cons_self
        · exact List.mem_cons_of_mem _ (List.mem_cons_of_mem _ h)
      · obtain rfl | hb := List.mem_cons.mp hb
        · exact hleast b List.mem_cons_self
        · obtain rfl | hb := List.mem_cons.mp hb
          · obtain rfl | hax := hxa
            · exact hleast b List.mem_cons_self
            · obtain heq | hbefore := hleast a List.mem_cons_self
              · exact .inr (heq ▸ hax)
              · exact .inr (hR.trans _ a b hbefore hax)
          · exact hleast b (List.mem_cons_of_mem _ hb)

theorem best_eq_head (hr : ∀ a b, r a b = true ↔ R a b) {a x : α} {l xs : List α}
    (h : (x :: xs).Pairwise R) (hmem : ∀ b, b ∈ a :: l ↔ b ∈ x :: xs) : best r a l = x := by
  obtain ⟨hbest, hleast⟩ := hR.best_spec hr l a
  obtain heq | hbefore := hleast x ((hmem x).mpr List.mem_cons_self)
  · exact heq.symm
  · obtain heq | hin := List.mem_cons.mp ((hmem _).mp hbest)
    · exact heq
    · exact absurd hbefore (hR.asymm ((List.pairwise_cons.mp h).1 _ hin))

end Strict

end Ranking
