import ZeroFrameworks.Kv.Store.Slices
import ZeroFrameworks.Kv.Store.Zadd

/-!
# What the sorted-set commands show

ZRANGE, ZREVRANGE, ZRANK and ZREVRANK sort the members anew for each call, ZPOPMIN and ZPOPMAX make one pass over them; all see
the one order of the set.  The pops first let the store evict, which may take their key.

    ZRANGE 0 -1 = l, ZREVRANGE 0 -1 = its reverse, ZRANK m = i ↔ ZRANGE i i = [m],
    ZREVRANK m = card - 1 - ZRANK m, ZPOPMIN and ZPOPMAX take the head and the last   (ranked_views)
-/

namespace Kv

/-! ## Specification -/

variable {F : Type} [LinearOrder F] [Platform F]

/-- The ranked commands on the sorted set `z` with the members `l`, in their order, and ZADD with every option. -/
structure RankedViews (env : Env) (db : Int) (key : Bytes) (s : KvStore F) (z : BMap F) (d : Int) (l : List (F × Bytes)) :
    Prop where
  range : (KvStore.zrange db key 0 (-1) false env s).1 = .ok (l.map fun p => (p.2, p.1))
  revrange : (KvStore.zrange db key 0 (-1) true env s).1 = .ok (l.reverse.map fun p => (p.2, p.1))
  rank_iff : ∀ m (i : Nat), (KvStore.zrank db key m false env s).1 = .ok (some (i : Int)) ↔
    ∃ x, (KvStore.zrange db key i i false env s).1 = .ok [(m, x)]
  revrank : ∀ m, (KvStore.zrank db key m true env s).1 =
    (KvStore.zrank db key m false env s).1.map fun r => r.map fun i => (z.size : Int) - 1 - i
  popmin : ∀ s0, (KvStore.evictIfNeededLocked env s0).2 = s → ∀ p rest, l = p :: rest → ∃ z', Listing z' rest ∧
    (KvStore.zpopmin db key env s0).1 = .ok (some (p.2, p.1)) ∧
      (KvStore.zpopmin db key env s0).2.view env.now = View.set (s.view env.now) db key (shownZset z' d)
  popmax : ∀ s0, (KvStore.evictIfNeededLocked env s0).2 = s → ∀ p rest, l = rest ++ [p] → ∃ z', Listing z' rest ∧
    (KvStore.zpopmax db key env s0).1 = .ok (some (p.2, p.1)) ∧
      (KvStore.zpopmax db key env s0).2.view env.now = View.set (s.view env.now) db key (shownZset z' d)
  zadd : ∀ (opt : ZaddOptions) members, members ≠ [] → (opt.nx && opt.xx) = false → (opt.gt && opt.lt) = false →
    ∃ z', Zadd env db key s z d opt members z'
  zadd_missing : ∀ s0 : KvStore F, s0.live env.now db key = none → ∀ (opt : ZaddOptions) members, members ≠ [] →
    (opt.nx && opt.xx) = false → (opt.gt && opt.lt) = false → ∃ z', Zadd env db key s0 ∅ 0 opt members z'
  zadd_refused : ∀ (opt : ZaddOptions) members, members ≠ [] → ((opt.nx && opt.xx) = true ∨ (opt.gt && opt.lt) = true) →
    (∃ e, (KvStore.zaddOpt db key opt members env s).1 = .error e) ∧ (KvStore.zaddOpt db key opt members env s).2 = s

/-! ## Lemmas -/

section positions

variable {α : Type} {l : List α}

theorem selected_all : selected 0 (-1) l = l := by
  rw [selected_eq]
  unfold fromEnd
  rw [if_neg (by omega), if_pos (by omega), show (max 0 0 : Int).toNat = 0 by omega, List.drop_zero, List.take_of_length_le]
  omega

theorem selected_one (i : Nat) : selected (i : Int) i l = l[i]?.toList := by
  rw [selected_eq]
  unfold fromEnd
  rw [if_neg (by omega), show (max 0 (i : Int)).toNat = i by omega]
  by_cases hi : i < l.length
  · rw [show (min (i : Int) (l.length - 1) + 1).toNat = i + 1 by omega, List.drop_take, List.getElem?_eq_getElem hi,
      List.drop_eq_getElem_cons hi, show i + 1 - i = 1 by omega]
    rfl
  · rw [List.getElem?_eq_none (by omega), List.drop_eq_nil_of_le (by rw [List.length_take]; omega)]
    rfl

end positions

variable {p : F × Bytes}

namespace Listing

variable {z : BMap F} {l : List (F × Bytes)} (h : Listing z l)
include h

omit [Platform F] in
theorem length_eq : l.length = z.size := by
  rw [← h.perm.length_eq, scored, List.length_map, Std.ExtTreeMap.length_toList]

omit [Platform F] in
theorem contains_iff (m : Bytes) : z.contains m = true ↔ ∃ x, (x, m) ∈ l := by
  rw [Std.ExtTreeMap.contains_eq_isSome_getElem?, Option.isSome_iff_exists]
  exact exists_congr fun x => (h.mem_iff (x, m)).symm

omit [Platform F] in
/-- The position of a name is that of its member. -/
theorem findIdx_eq_iff {l' : List (F × Bytes)} (hperm : l'.Perm l) (m : Bytes) (i : Nat) :
    (z.contains m = true ∧ l'.findIdx (fun r => r.2 == m) = i) ↔ ∃ x, l'[i]? = some (x, m) := by
  have hnodup : l'.Nodup := hperm.nodup_iff.mpr (strict_before.nodup h.increasing)
  rw [h.contains_iff]
  constructor
  · rintro ⟨⟨x, hx⟩, rfl⟩
    have hlt : l'.findIdx (fun r => r.2 == m) < l'.length :=
      List.findIdx_lt_length_of_exists ⟨(x, m), hperm.mem_iff.mpr hx, beq_self_eq_true m⟩
    have hname : l'[l'.findIdx (fun r => r.2 == m)].2 = m := eq_of_beq (List.findIdx_getElem (w := hlt))
    exact ⟨l'[l'.findIdx (fun r => r.2 == m)].1, by rw [List.getElem?_eq_getElem hlt]; exact congrArg some (Prod.ext rfl hname)⟩
  · rintro ⟨x, hx⟩
    obtain ⟨hi, hget⟩ := List.getElem?_eq_some_iff.mp hx
    have hmem : (x, m) ∈ l' := hget ▸ List.getElem_mem hi
    have hlt : l'.findIdx (fun r => r.2 == m) < l'.length :=
      List.findIdx_lt_length_of_exists ⟨(x, m), hmem, beq_self_eq_true m⟩
    refine ⟨⟨x, hperm.mem_iff.mp hmem⟩, ?_⟩
    have hname : l'[l'.findIdx (fun r => r.2 == m)].2 = m := eq_of_beq (List.findIdx_getElem (w := hlt))
    have hinj : l'[l'.findIdx (fun r => r.2 == m)] = l'[i] → l'.findIdx (fun r => r.2 == m) = i := hnodup.getElem_inj_iff.mp
    refine hinj ?_
    rw [hget]
    exact h.eq_of_member (hperm.mem_iff.mp (List.getElem_mem hlt)) (hperm.mem_iff.mp hmem) hname

omit [Platform F] in
theorem erase {rest : List (F × Bytes)} (hsub : rest.Sublist l) (hp : p ∈ l)
    (hrest : ∀ q, q ∈ rest ↔ q ∈ l ∧ q ≠ p) : Listing (z.erase p.2) rest where
  increasing := h.increasing.sublist hsub
  mem_iff q := by
    rw [hrest, Std.ExtTreeMap.getElem?_erase]
    by_cases hname : compare p.2 q.2 = .eq
    · have heq := Std.LawfulEqCmp.eq_of_compare hname
      rw [if_pos hname]
      constructor
      · rintro ⟨hq, hne⟩
        exact absurd (h.eq_of_member hq hp heq.symm) hne
      · intro h
        cases h
    · rw [if_neg hname, ← h.mem_iff]
      refine ⟨fun hq => hq.1, fun hq => ⟨hq, ?_⟩⟩
      rintro rfl
      exact hname Std.ReflCmp.compare_self

end Listing

section commands

variable [OrderedScores F] {env : Env} {db : Int} {key : Bytes} {s s0 : KvStore F} {z : BMap F} {d : Int}
  {l : List (F × Bytes)}

theorem Listing.ranked (h : Listing z l) (reverse : Bool) : rankedZset z reverse = if reverse then l.reverse else l := by
  cases reverse with
  | false => exact h.ranked_eq
  | true => exact h.ranked_reverse

theorem zrange_reply (hheld : Field.zset.held (s.live env.now db key) = .value z d) (h : Listing z l) (reverse : Bool)
    (start stop : Int) : (KvStore.zrange db key start stop reverse env s).1 =
      .ok ((selected start stop (if reverse then l.reverse else l)).map fun p => (p.2, p.1)) := by
  refine (onField_of_value _ Field.whole_zset hheld).1.trans ?_
  rw [← h.ranked reverse, ← listSlice_eq]
  rfl

theorem zrank_reply (hheld : Field.zset.held (s.live env.now db key) = .value z d) (h : Listing z l) (reverse : Bool)
    (m : Bytes) : (KvStore.zrank db key m reverse env s).1 =
      .ok (if z.contains m then some (((if reverse then l.reverse else l).findIdx fun r => r.2 == m : Nat) : Int) else none) := by
  refine (onField_of_value _ Field.whole_zset hheld).1.trans ?_
  rw [← h.ranked reverse]
  rfl

theorem zrank_iff (hheld : Field.zset.held (s.live env.now db key) = .value z d) (h : Listing z l) (reverse : Bool)
    (m : Bytes) (i : Nat) : (KvStore.zrank db key m reverse env s).1 = .ok (some (i : Int)) ↔
      ∃ x, (if reverse then l.reverse else l)[i]? = some (x, m) := by
  have hperm : (if reverse then l.reverse else l).Perm l := by
    cases reverse with
    | false => exact .refl l
    | true => exact List.reverse_perm l
  rw [zrank_reply hheld h, ← h.findIdx_eq_iff hperm]
  constructor
  · intro heq
    have heq := Except.ok.inj heq
    split at heq
    next hin => exact ⟨hin, Int.ofNat_inj.mp (Option.some.inj heq)⟩
    next => cases heq
  · rintro ⟨hin, hidx⟩
    rw [if_pos hin, hidx]

theorem rank_iff (hheld : Field.zset.held (s.live env.now db key) = .value z d) (h : Listing z l) (m : Bytes) (i : Nat) :
    (KvStore.zrank db key m false env s).1 = .ok (some (i : Int)) ↔
      ∃ x, (KvStore.zrange db key i i false env s).1 = .ok [(m, x)] := by
  rw [zrank_iff hheld h, zrange_reply hheld h]
  refine exists_congr fun x => ?_
  rw [if_neg Bool.false_ne_true, selected_one]
  cases l[i]? with
  | none => exact ⟨fun h => (by cases h), fun h => (by cases h)⟩
  | some p =>
    constructor
    · intro hp
      obtain rfl := Option.some.inj hp
      rfl
    · intro hone
      obtain ⟨y, m'⟩ := p
      cases hone
      rfl

theorem revrank (hheld : Field.zset.held (s.live env.now db key) = .value z d) (h : Listing z l) (m : Bytes) :
    (KvStore.zrank db key m true env s).1 =
      (KvStore.zrank db key m false env s).1.map fun r => r.map fun i => (z.size : Int) - 1 - i := by
  by_cases hin : z.contains m = true
  · -- the position from the other end of the member at position i
    obtain ⟨i, hidx⟩ : ∃ i, l.findIdx (fun r => r.2 == m) = i := ⟨_, rfl⟩
    obtain ⟨x, hx⟩ := (h.findIdx_eq_iff (.refl l) m i).mp ⟨hin, hidx⟩
    obtain ⟨hi, -⟩ := List.getElem?_eq_some_iff.mp hx
    have hback : l.reverse[l.length - 1 - i]? = some (x, m) := by
      rw [List.getElem?_reverse (by omega), ← hx]
      congr 1
      omega
    rw [(zrank_iff hheld h true m _).mpr ⟨x, hback⟩, (zrank_iff hheld h false m _).mpr ⟨x, hx⟩]
    show Except.ok (some ((l.length - 1 - i : Nat) : Int)) = Except.ok (some ((z.size : Int) - 1 - i))
    rw [← h.length_eq]
    congr 2
    omega
  · rw [zrank_reply hheld h, zrank_reply hheld h, if_neg hin, if_neg hin]
    rfl

omit [LinearOrder F] [OrderedScores F] in
theorem zpopBest_of_value {better : F × Bytes → F × Bytes → Bool}
    (hs : (KvStore.evictIfNeededLocked env s0).2 = s) (hheld : Field.zset.held (s.live env.now db key) = .value z d)
    (hbest : bestMember better z = some p) :
    (KvStore.zpopBest better db key env s0).1 = .ok (some (p.2, p.1)) ∧
      (KvStore.zpopBest better db key env s0).2.view env.now =
        View.set (s.view env.now) db key (shownZset (z.erase p.2) d) := by
  unfold KvStore.zpopBest
  rw [StoreM.bind_apply, hs]
  refine ⟨(onField_of_value _ Field.whole_zset hheld).1.trans ?_, (onField_of_value _ Field.whole_zset hheld).2.trans ?_⟩
  · dsimp only [Option.bind_some]
    rw [hbest]
    dsimp only [Option.map_some]
    split <;> rfl
  · congr 1
    dsimp only [Option.bind_some]
    rw [hbest]
    dsimp only [Option.map_some]
    unfold shownZset
    split <;> rfl

omit [LinearOrder F] [Platform F] [OrderedScores F] in
theorem bestMember_eq {R : F × Bytes → F × Bytes → Prop} (hR : Ranking.Strict R) {better : F × Bytes → F × Bytes → Bool}
    (hbetter : ∀ a b, better a b = true ↔ R a b) {rest : List (F × Bytes)} (hinc : (p :: rest).Pairwise R)
    (hmem : ∀ q, q ∈ p :: rest ↔ q ∈ scored z) : bestMember better z = some p := by
  unfold bestMember
  cases hz : z.toList.map fun m => (m.2, m.1) with
  | nil =>
    have hp := (hmem p).mp List.mem_cons_self
    rw [scored, hz] at hp
    cases hp
  | cons a as =>
    refine congrArg some (hR.best_eq_head hbetter hinc fun b => ?_)
    rw [hmem, scored, hz]
    simp

theorem popmin_better (a b : F × Bytes) : (Platform.lt a.1 b.1 || (Platform.eq a.1 b.1 && (compare a.2 b.2).isLT)) = true ↔
    before a b := by
  rw [OrderedScores.lt_eq, OrderedScores.eq_eq, Bool.or_eq_true, Bool.and_eq_true, decide_eq_true_iff, decide_eq_true_iff,
    Ordering.isLT_iff_eq_lt]
  rfl

theorem popmax_better (a b : F × Bytes) : (Platform.lt b.1 a.1 || (Platform.eq a.1 b.1 && (compare b.2 a.2).isLT)) = true ↔
    Ranking.flip before a b := by
  rw [OrderedScores.lt_eq, OrderedScores.eq_eq, Bool.or_eq_true, Bool.and_eq_true, decide_eq_true_iff, decide_eq_true_iff,
    Ordering.isLT_iff_eq_lt, eq_comm]
  rfl

end commands

/-! ## Top theorem -/

theorem ranked_views [OrderedScores F] (env : Env) (db : Int) (key : Bytes) (s : KvStore F) (z : BMap F) (d : Int)
    (hheld : Field.zset.held (s.live env.now db key) = .value z d) (l : List (F × Bytes)) (h : Listing z l) :
    RankedViews env db key s z d l where
  range := by
    rw [zrange_reply hheld h, if_neg Bool.false_ne_true, selected_all]
  revrange := by
    rw [zrange_reply hheld h, if_pos rfl, selected_all]
  rank_iff := rank_iff hheld h
  revrank := revrank hheld h
  popmin s0 hs p rest hl := by
    subst hl
    have hnot : p ∉ rest := (List.nodup_cons.mp (strict_before.nodup h.increasing)).1
    refine ⟨z.erase p.2, h.erase (List.sublist_cons_self p rest) List.mem_cons_self fun q => ?_, ?_⟩
    · rw [List.mem_cons]
      refine ⟨fun hq => ⟨.inr hq, fun heq => hnot (heq ▸ hq)⟩, fun hq => hq.1.resolve_left hq.2⟩
    · exact zpopBest_of_value hs hheld (bestMember_eq strict_before popmin_better h.increasing fun q => by
        rw [h.mem_iff, mem_scored])
  popmax s0 hs p rest hl := by
    subst hl
    have hnot : p ∉ rest := by
      have hnodup := strict_before.nodup h.increasing
      rw [List.nodup_append] at hnodup
      exact fun hp => hnodup.2.2 p hp p (List.mem_singleton_self p) rfl
    refine ⟨z.erase p.2, h.erase (List.sublist_append_left rest [p]) (by simp) fun q => ?_, ?_⟩
    · rw [List.mem_append, List.mem_singleton]
      refine ⟨fun hq => ⟨.inl hq, fun heq => hnot (heq ▸ hq)⟩, fun hq => hq.1.resolve_right hq.2⟩
    · have hback : (p :: rest.reverse).Pairwise (Ranking.flip before) := by
        have hrev := List.pairwise_reverse.mpr h.increasing
        rwa [List.reverse_append] at hrev
      refine zpopBest_of_value hs hheld (bestMember_eq strict_before.flip popmax_better hback fun q => ?_)
      rw [mem_scored, ← h.mem_iff]
      simp [or_comm]
  zadd opt members hne hnx hgt := ⟨_, zaddOpt_spec hne hnx hgt (.inl hheld)⟩
  zadd_missing s0 hnone opt members hne hnx hgt := ⟨_, zaddOpt_spec hne hnx hgt (.inr ⟨hnone, rfl, rfl⟩)⟩
  zadd_refused opt members hne hboth := zaddOpt_refused hne hboth

theorem ranked_views_one : RankedViews { now := 0 } 0 (lit "z") threeMembers threeScores 0
    [(-2, lit "a"), (-2, lit "b"), (5, lit "c")] := ranked_views _ _ _ _ _ _ held_threeMembers _ listing_threeMembers

/-- ZADD z CH 2 a 3 a counts the one member twice, ZRANGE z -1 -1 shows a member of rank 0, and a store over its memory limit
evicts the set before ZPOPMIN. -/
theorem ranked_views_twice :
    ((KvStore.zaddOpt 0 (lit "z") { ch := true } [(2, lit "a"), (3, lit "a")] { now := 0 } oneMember).1 = .ok 2 ∧
      (KvStore.zaddOpt 0 (lit "z") { ch := true } [(2, lit "a"), (3, lit "a")] { now := 0 } oneMember).2.view 0 0 (lit "z") =
        some (Field.zset.item ((∅ : BMap Int).insert (lit "a") 3) 0)) ∧
    ((KvStore.zrange 0 (lit "z") (-1) (-1) false { now := 0 } oneMember).1 = .ok [(lit "a", 1)] ∧
      (KvStore.zrank 0 (lit "z") (lit "a") false { now := 0 } oneMember).1 = .ok (some 0)) ∧
    (KvStore.zpopmin 0 (lit "z") { now := 0 } { oneMember with conf := { maxmemory := 1 } }).1 = .ok none := by
  refine ⟨⟨by rfl, by rfl⟩, ⟨?_, ?_⟩, by rfl⟩
  · rw [zrange_reply held_oneMember listing_oneMember]
    rfl
  · rw [zrank_reply held_oneMember listing_oneMember]
    rfl

end Kv
