import Mathlib.Data.List.Nodup
import ZeroFrameworks.Kv.Store.Scans
import ZeroFrameworks.Kv.Store.ZSets

/-!
# The pairs of HSCAN and ZSCAN

Both write their pairs into one list and cut it wherever COUNT says; ZSCAN writes the score first and sorts the list of
all the strings before it is cut.

    HSCAN gives whole pairs ↔ all of them fit into one page, or COUNT is even   (hscanPairs_iff)
    ZSCAN does ↔ that, and each score sorts, as a string, between its member and the next one   (zscanPairs_iff)
-/

namespace Kv

variable {F : Type} [Platform F]

/-! ## Specification -/

/-- The pairs HSCAN is to give. -/
def fieldPairs (pattern : Bytes) (h : BMap Bytes) : List (Bytes × Bytes) := h.toList.filter fun f => matchGlob pattern f.1

/-- The pairs ZSCAN is to give, the scores as text. -/
def memberPairs (pattern : Bytes) (z : BMap F) : List (Bytes × Bytes) :=
  (z.toList.filter fun m => matchGlob pattern m.1).map fun m => (m.1, Platform.toString m.2)

def zscanCall (db : Int) (key pattern : Bytes) (count : Int) (m : Moment F) (cursor : Nat) : Option (Nat × List Bytes) :=
  (KvStore.zscan db key cursor pattern count m.env m.store).1.toOption

variable (F) in
/-- Iterating over a hash that stays as it is gives its pairs, whole and once. -/
def HscanPairs (db : Int) (key pattern : Bytes) (count : Int) (h : BMap Bytes) : Prop :=
  ∀ (moments : List (Moment F)) pages, (∀ m ∈ moments, ScanTarget.valueAt .hash db key m = some h) →
    Paging.Iteration ((ScanTarget.fields key).call db pattern count) 0 moments pages →
      Paging.Paired (fieldPairs pattern h) pages

def ZscanPairs (db : Int) (key pattern : Bytes) (count : Int) (z : BMap F) : Prop :=
  ∀ (moments : List (Moment F)) pages, (∀ m ∈ moments, ScanTarget.valueAt .zset db key m = some z) →
    Paging.Iteration (zscanCall db key pattern count) 0 moments pages → Paging.Paired (memberPairs pattern z) pages

/-- No page ends within a pair. -/
def CutsFit (count : Int) (pairs : List (Bytes × Bytes)) : Prop := 2 * pairs.length ≤ pageSize count ∨ 2 ∣ pageSize count

/-- Each pair's second string sorts between its first and the next pair. -/
def SortsInPlace (pairs : List (Bytes × Bytes)) : Prop := (Paging.unpair pairs).Pairwise fun a b => bytesLe a b = true

instance (count : Int) (pairs : List (Bytes × Bytes)) : Decidable (CutsFit count pairs) :=
  inferInstanceAs (Decidable (_ ∨ _))

instance (pairs : List (Bytes × Bytes)) : Decidable (SortsInPlace pairs) :=
  inferInstanceAs (Decidable (List.Pairwise _ _))

/-! ## Lemmas -/

/-- A store with one value in it. -/
def momentWith {V : Type} (L : Field F V) (db : Int) (key : Bytes) (v : V) : Moment F :=
  { env := { now := 0 }
    store := KvStore.empty.putEntry db key (some { L.set v { type := L.type } with }) }

theorem valueAt_momentWith {V : Type} {L : Field F V} (hget : ∀ v o, L.get (L.set v o) = v) (db : Int) (key : Bytes) (v : V) :
    ScanTarget.valueAt L db key (momentWith L db key v) = some v := by
  refine ScanTarget.valueAt_eq_some.mpr ⟨{ L.set v { type := L.type } with }, ?_, L.type_set _ _, hget _ _⟩
  unfold KvStore.live KvStore.item momentWith
  rw [KvStore.entry_putEntry, if_pos ⟨rfl, rfl⟩]
  rfl

/-- Calls that cut their pages from one listing give whole pairs just when the listing is made of them and the cuts fit. -/
theorem paired_calls_iff {call : Moment F → Nat → Option (Nat × List Bytes)} {all : List Bytes} {count : Int}
    {pairs : List (Bytes × Bytes)} {There : Moment F → Prop} (hall : all.length = 2 * pairs.length)
    (hcall : ∀ m, There m → ∀ c, call m c = some (Paging.page (pageSize count) all c)) (hthere : ∃ m, There m) :
    (∀ moments pages, (∀ m ∈ moments, There m) → Paging.Iteration call 0 moments pages → Paging.Paired pairs pages) ↔
      (∃ l, all = Paging.unpair l ∧ l.Perm pairs) ∧ CutsFit count pairs := by
  have hsize := pageSize_pos count
  unfold CutsFit
  rw [← hall]
  constructor
  · intro h
    obtain ⟨m, hm⟩ := hthere
    obtain ⟨n, pages, hit⟩ := Paging.exists_iteration (c := 0) (fun _ => m) (fun _ => hcall m hm) hsize
    have hms : ∀ i ∈ (List.range n).map fun _ => m, There i := by
      intro i hi
      obtain ⟨-, -, rfl⟩ := List.mem_map.mp hi
      exact hm
    exact (hit.paired_iff (fun i hi => hcall i (hms i hi)) hsize).mp (h _ _ hms hit)
  · intro h moments pages hms hit
    exact (hit.paired_iff (fun i hi => hcall i (hms i hi)) hsize).mpr h

theorem hscanPairs_iff (db : Int) (key pattern : Bytes) (count : Int) (h : BMap Bytes) :
    HscanPairs F db key pattern count h ↔ CutsFit count (fieldPairs pattern h) := by
  have hcall : ∀ m : Moment F, ScanTarget.valueAt .hash db key m = some h → ∀ c, (ScanTarget.fields key).call db pattern count m c =
      some (Paging.page (pageSize count) (Paging.unpair (fieldPairs pattern h)) c) := by
    intro m hm c
    dsimp only [ScanTarget.call]
    unfold KvStore.hscan
    rw [ScanTarget.onField_valueAt hm, ← page_eq]
    rfl
  have hiff := paired_calls_iff (Paging.length_unpair _) hcall ⟨_, valueAt_momentWith (fun _ _ => rfl) db key h⟩
  exact hiff.trans (and_iff_right ⟨_, rfl, .refl _⟩)

section zscan

variable {z : BMap F} {pattern : Bytes}

/-- The strings ZSCAN cuts its pages from. -/
def sortedStrings (pattern : Bytes) (z : BMap F) : List Bytes :=
  ((z.toList.filter fun m => matchGlob pattern m.1).flatMap fun m => [Platform.toString m.2, m.1]).mergeSort bytesLe

theorem bytesLe_antisymm {a b : Bytes} (hab : bytesLe a b = true) (hba : bytesLe b a = true) : a = b := by
  by_contra hne
  have hswap : compare b a = (compare a b).swap := Std.OrientedCmp.eq_swap
  rw [lt_of_bytesLe hne hab, lt_of_bytesLe (Ne.symm hne) hba] at hswap
  cases hswap

theorem sortedStrings_perm : (sortedStrings pattern z).Perm (Paging.unpair (memberPairs pattern z)) := by
  refine (List.mergeSort_perm _ _).trans ?_
  unfold memberPairs Paging.unpair
  rw [List.flatMap_map]
  exact List.Perm.flatMap_left _ fun m _ => List.Perm.swap ..

theorem sorted_sortedStrings : (sortedStrings pattern z).Pairwise fun a b => bytesLe a b = true :=
  List.pairwise_mergeSort bytesLe_trans bytesLe_total _

theorem ordered_memberPairs : (memberPairs pattern z).Pairwise fun a b => compare a.1 b.1 = .lt :=
  List.pairwise_map.mpr (Std.ExtTreeMap.ordered_keys_toList.filter _)

theorem firsts_sublist {α : Type} (l : List (α × α)) : (l.map Prod.fst).Sublist (Paging.unpair l) := by
  induction l with
  | nil => exact .refl _
  | cons p l ih =>
    rw [List.map_cons, Paging.unpair_cons]
    exact .cons_cons _ (.cons _ ih)

/-- Sorted strings that are pairs are the pairs in the order of the members. -/
theorem sortedStrings_pairs_iff :
    (∃ l, sortedStrings pattern z = Paging.unpair l ∧ l.Perm (memberPairs pattern z)) ↔ SortsInPlace (memberPairs pattern z) := by
  constructor
  · rintro ⟨l, hl, hperm⟩
    have hsorted : (sortedStrings pattern z).Pairwise fun a b => bytesLe a b = true := sorted_sortedStrings
    rw [hl] at hsorted
    have hle : l.Pairwise fun a b => bytesLe a.1 b.1 = true :=
      List.pairwise_map.mp (List.Pairwise.sublist (firsts_sublist l) hsorted)
    have hle' : (memberPairs pattern z).Pairwise fun a b => bytesLe a.1 b.1 = true :=
      ordered_memberPairs.imp fun h => by rw [bytesLe, h]; rfl
    have hnodup : ((memberPairs pattern z).map Prod.fst).Nodup :=
      List.pairwise_map.mpr (ordered_memberPairs.imp fun {a b} h heq => by
        rw [heq] at h
        have hself : compare b.1 b.1 = .eq := Std.ReflCmp.compare_self
        rw [hself] at h
        cases h)
    -- two orders of the same members, both increasing
    have heq : l = memberPairs pattern z := by
      refine List.Perm.eq_of_pairwise (fun a b ha hb hab hba => ?_) hle hle' hperm
      exact List.inj_on_of_nodup_map hnodup (hperm.mem_iff.mp ha) hb (bytesLe_antisymm hab hba)
    unfold SortsInPlace
    rw [← heq]
    exact hsorted
  · intro h
    refine ⟨_, ?_, .refl _⟩
    exact List.Perm.eq_of_pairwise (fun a b _ _ hab hba => bytesLe_antisymm hab hba) sorted_sortedStrings h sortedStrings_perm

theorem zscanPairs_iff (db : Int) (key pattern : Bytes) (count : Int) (z : BMap F) :
    ZscanPairs db key pattern count z ↔
      SortsInPlace (memberPairs pattern z) ∧ CutsFit count (memberPairs pattern z) := by
  have hlen : (sortedStrings pattern z).length = 2 * (memberPairs pattern z).length := by
    rw [sortedStrings_perm.length_eq, Paging.length_unpair]
  have hcall : ∀ m : Moment F, ScanTarget.valueAt .zset db key m = some z → ∀ c, zscanCall db key pattern count m c =
      some (Paging.page (pageSize count) (sortedStrings pattern z) c) := by
    intro m hm c
    unfold zscanCall KvStore.zscan
    rw [ScanTarget.onField_valueAt hm, ← page_eq]
    rfl
  have hiff := paired_calls_iff hlen hcall ⟨_, valueAt_momentWith (fun _ _ => rfl) db key z⟩
  refine hiff.trans ?_
  rw [sortedStrings_pairs_iff]

end zscan

/-! ## Top theorem -/

theorem scan_pairs_iff (db : Int) (key pattern : Bytes) (count : Int) :
    (∀ h, HscanPairs F db key pattern count h ↔ CutsFit count (fieldPairs pattern h)) ∧
      ∀ z : BMap F, ZscanPairs db key pattern count z ↔
        SortsInPlace (memberPairs pattern z) ∧ CutsFit count (memberPairs pattern z) :=
  ⟨hscanPairs_iff db key pattern count, zscanPairs_iff db key pattern count⟩

/-- HSCAN of two fields with COUNT 1, and ZSCAN of one member. -/
theorem scan_pairs_torn :
    ¬HscanPairs Int 0 (lit "h") (lit "*") 1 (((∅ : BMap Bytes).insert (lit "f") (lit "1")).insert (lit "g") (lit "2")) ∧
      ¬ZscanPairs 0 (lit "z") (lit "*") 10 ((∅ : BMap Int).insert (lit "a") 1) := by
  rw [hscanPairs_iff, zscanPairs_iff]
  constructor
  · decide
  · decide

end Kv
