import Mathlib.Order.Basic
import ZeroFrameworks.Kv.Store.Views
import ZeroFrameworks.Kv.Store.ZSets
import ZeroFrameworks.Lib.Ranking

/-!
# The order of a sorted set

With scores from a linear order the members of a sorted set increase by score, and by name where scores are equal.

    rankedZset z false = the ranking of z, rankedZset z true = its reverse   (Listing.ranked_eq, Listing.ranked_reverse)
-/

namespace Kv

/-! ## Specification -/

/-- Scores whose comparisons are those of a linear order. -/
class OrderedScores (F : Type) [Platform F] [LinearOrder F] : Prop where
  lt_eq : ∀ x y : F, Platform.lt x y = decide (x < y)
  eq_eq : ∀ x y : F, Platform.eq x y = decide (x = y)

instance : OrderedScores Int := ⟨fun _ _ => rfl, fun _ _ => rfl⟩

variable {F : Type} [LinearOrder F]

/-- By score, then by member. -/
def before (a b : F × Bytes) : Prop := a.1 < b.1 ∨ a.1 = b.1 ∧ compare a.2 b.2 = .lt

/-- Every member once with its score, in increasing order. -/
structure Listing (z : BMap F) (l : List (F × Bytes)) : Prop where
  increasing : l.Pairwise before
  mem_iff : ∀ p, p ∈ l ↔ z[p.2]? = some p.1

/-! ## Lemmas -/

theorem strict_before : Ranking.Strict (before (F := F)) where
  irrefl a h := by
    obtain h | ⟨-, h⟩ := h
    · exact lt_irrefl _ h
    · have heq : compare a.2 a.2 = .eq := Std.ReflCmp.compare_self
      rw [heq] at h
      cases h
  trans a b c hab hbc := by
    obtain hab | ⟨hab, hab'⟩ := hab
    · obtain hbc | ⟨hbc, -⟩ := hbc
      · exact .inl (lt_trans hab hbc)
      · exact .inl (hbc ▸ hab)
    · obtain hbc | ⟨hbc, hbc'⟩ := hbc
      · exact .inl (hab ▸ hbc)
      · exact .inr ⟨hab.trans hbc, Std.TransCmp.lt_trans hab' hbc'⟩
  total a b := by
    obtain h | h | h := lt_trichotomy a.1 b.1
    · exact .inl (.inl h)
    · cases hc : compare a.2 b.2 with
      | lt => exact .inl (.inr ⟨h, hc⟩)
      | eq => exact .inr (.inl (Prod.ext h (Std.LawfulEqCmp.eq_of_compare hc)))
      | gt => exact .inr (.inr (.inr ⟨h.symm, Std.OrientedCmp.lt_of_gt hc⟩))
    · exact .inr (.inr (.inl h))

/-- The scores and members as the map lists them. -/
abbrev scored (z : BMap F) : List (F × Bytes) := z.toList.map fun m => (m.2, m.1)

omit [LinearOrder F] in
theorem mem_scored {z : BMap F} (p : F × Bytes) : p ∈ scored z ↔ z[p.2]? = some p.1 := by
  rw [← Std.ExtTreeMap.mem_toList_iff_getElem?_eq_some, List.mem_map]
  constructor
  · rintro ⟨m, hm, rfl⟩
    exact hm
  · intro h
    exact ⟨_, h, rfl⟩

omit [LinearOrder F] in
theorem nodup_scored {z : BMap F} : (scored z).Nodup := by
  refine List.pairwise_map.mpr (Std.ExtTreeMap.distinct_keys_toList.imp fun {a b} hne heq => hne ?_)
  have hkey : a.1 = b.1 := (Prod.ext_iff.mp heq).2
  rw [hkey]
  exact Std.ReflCmp.compare_self

variable [Platform F] [OrderedScores F] {z : BMap F} {l : List (F × Bytes)}

theorem rankLt_iff (a b : F × Bytes) : rankLt a b = true ↔ before a b := by
  unfold rankLt before
  rw [OrderedScores.eq_eq, OrderedScores.lt_eq]
  by_cases h : a.1 = b.1
  · rw [if_pos (decide_eq_true h), Ordering.isLT_iff_eq_lt]
    constructor
    · exact fun hc => .inr ⟨h, hc⟩
    · rintro (hlt | ⟨-, hc⟩)
      · exact absurd h hlt.ne
      · exact hc
  · rw [if_neg (by simpa using h), decide_eq_true_iff]
    constructor
    · exact .inl
    · rintro (hlt | ⟨heq, -⟩)
      · exact hlt
      · exact absurd heq h

theorem listing_ranked (z : BMap F) : Listing z (rankedZset z false) where
  increasing := strict_before.increasing_mergeSort rankLt_iff nodup_scored
  mem_iff p := by
    rw [← mem_scored]
    exact List.mem_mergeSort

namespace Listing

variable (h : Listing z l)
include h

theorem ranked_eq : rankedZset z false = l :=
  strict_before.eq_of_mem (listing_ranked z).increasing h.increasing fun p => by
    rw [(listing_ranked z).mem_iff, h.mem_iff]

theorem ranked_reverse : rankedZset z true = l.reverse := by
  rw [← h.ranked_eq]
  exact strict_before.mergeSort_flip rankLt_iff nodup_scored

omit [Platform F] [OrderedScores F] in
theorem perm : (scored z).Perm l :=
  (List.perm_ext_iff_of_nodup nodup_scored (strict_before.nodup h.increasing)).mpr fun p => by rw [mem_scored, h.mem_iff]

omit [Platform F] [OrderedScores F] in
theorem eq_of_member {p q : F × Bytes} (hp : p ∈ l) (hq : q ∈ l) (heq : p.2 = q.2) : p = q := by
  rw [h.mem_iff] at hp hq
  rw [heq, hq] at hp
  exact Prod.ext (Option.some.inj hp).symm heq

end Listing

/-! ## Example -/

/-- A sorted set with one member. -/
def oneMember : KvStore Int := KvStore.empty.putEntry 0 (lit "z") (some { type := .zset, zset := (∅ : BMap Int).insert (lit "a") 1 })

theorem held_oneMember : Field.zset.held (oneMember.live 0 0 (lit "z")) = .value ((∅ : BMap Int).insert (lit "a") 1) 0 := by rfl

theorem Listing.cons {z : BMap Int} {l : List (Int × Bytes)} (h : Listing z l) {x : Int} {m : Bytes} (hnew : z[m]? = none)
    (hfirst : ∀ q ∈ l, before (x, m) q) : Listing (z.insert m x) ((x, m) :: l) where
  increasing := List.pairwise_cons.mpr ⟨hfirst, h.increasing⟩
  mem_iff p := by
    rw [List.mem_cons, h.mem_iff, Std.ExtTreeMap.getElem?_insert]
    obtain ⟨y, n⟩ := p
    by_cases heq : compare m n = .eq
    · obtain rfl := Std.LawfulEqCmp.eq_of_compare heq
      rw [if_pos heq, hnew]
      simp [eq_comm]
    · have hne : n ≠ m := by
        rintro rfl
        exact heq Std.ReflCmp.compare_self
      rw [if_neg heq]
      simp [hne]

theorem listing_empty : Listing (∅ : BMap Int) [] := ⟨.nil, by simp⟩

theorem listing_oneMember : Listing ((∅ : BMap Int).insert (lit "a") 1) [(1, lit "a")] :=
  listing_empty.cons (by simp) (by simp)

/-- Two members of one score and a third. -/
def threeScores : BMap Int := (((∅ : BMap Int).insert (lit "c") 5).insert (lit "b") (-2)).insert (lit "a") (-2)

def threeMembers : KvStore Int := KvStore.empty.putEntry 0 (lit "z") (some { type := .zset, zset := threeScores })

theorem held_threeMembers : Field.zset.held (threeMembers.live 0 0 (lit "z")) = .value threeScores 0 := by rfl

theorem listing_threeMembers : Listing threeScores [(-2, lit "a"), (-2, lit "b"), (5, lit "c")] :=
  ((listing_empty.cons (by simp) (by simp)).cons (by rfl) (by unfold before; decide)).cons (by rfl) (by unfold before; decide)

end Kv
