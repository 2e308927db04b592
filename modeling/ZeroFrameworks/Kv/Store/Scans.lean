import ZeroFrameworks.Kv.Store.Hashes
import ZeroFrameworks.Kv.Store.OrderlyDbs
import ZeroFrameworks.Kv.Store.Sets
import ZeroFrameworks.Lib.Paging

/-!
# SCAN, HSCAN and SSCAN from 0 to 0

The cursor is a position in the sorted names of the moment.  A name is never left out as long as the names in front of it
do not get fewer than the cursor says; when they do, the call skips it, and no later one comes back to it.

    no name falls in front of the cursor between two calls → every name that is there all the time is shown  (scan_shows_all)
-/

namespace Kv

variable {F : Type} [Platform F]

/-! ## Iterations -/

/-- Where a call meets the store; since the last call anything may have been done to it. -/
structure Moment (F : Type) [Platform F] where
  env : Env
  store : KvStore F

/-- The number of items a page is cut to. -/
def pageSize (count : Int) : Nat := if count ≤ 0 then 10 else count.toNat

/-- What is scanned: the keys of the database, the fields of a hash or the members of a set. -/
inductive ScanTarget where
  | keys
  | fields (key : Bytes)
  | members (key : Bytes)

namespace ScanTarget

def call (t : ScanTarget) (db : Int) (pattern : Bytes) (count : Int) (m : Moment F) (cursor : Nat) :
    Option (Nat × List Bytes) :=
  match t with
  | .keys => some (KvStore.scan db cursor pattern count m.env m.store).1
  | .fields key => (KvStore.hscan db key cursor pattern count m.env m.store).1.toOption
  | .members key => (KvStore.sscan db key cursor pattern count m.env m.store).1.toOption

/-- The hash or set under a key, as the commands for its type see it. -/
def valueAt {V : Type} (L : Field F V) (db : Int) (key : Bytes) (m : Moment F) : Option V :=
  ((m.store.live m.env.now db key).filter fun o => o.type = L.type).map fun o => L.get o.toObj

def Present (t : ScanTarget) (db : Int) (m : Moment F) (name : Bytes) : Prop :=
  match t with
  | .keys => m.store.live m.env.now db name ≠ none
  | .fields key => ∃ h, valueAt .hash db key m = some h ∧ name ∈ h
  | .members key => ∃ a, valueAt .sets db key m = some a ∧ name ∈ a

/-- The matching names, in increasing order. -/
def matching (t : ScanTarget) (db : Int) (pattern : Bytes) (m : Moment F) : List Bytes :=
  match t with
  | .keys => (KvStore.keys db pattern m.env m.store).1
  | .fields key => (((valueAt .hash db key m).getD ∅).toList.filter fun f => matchGlob pattern f.1).map Prod.fst
  | .members key => ((valueAt .sets db key m).getD ∅).toList.filter (matchGlob pattern)

/-- A field takes two places of a listing. -/
def width (t : ScanTarget) : Nat :=
  match t with
  | .fields _ => 2
  | _ => 1

/-- Where a name stands among what is listed. -/
def place (t : ScanTarget) (db : Int) (pattern name : Bytes) (m : Moment F) : Nat :=
  t.width * ((t.matching db pattern m).filter fun y => (compare y name).isLT).length

/-- No name that is there at both moments falls in front of the cursor. -/
def Keeps (t : ScanTarget) (db : Int) (pattern : Bytes) (cursor : Nat) (i j : Moment F) : Prop :=
  ∀ name ∈ t.matching db pattern i, name ∈ t.matching db pattern j →
    cursor ≤ t.place db pattern name i → cursor ≤ t.place db pattern name j

end ScanTarget

/-! ## Lemmas -/

theorem bytesLe_trans (a b c : Bytes) (hab : bytesLe a b = true) (hbc : bytesLe b c = true) : bytesLe a c = true :=
  Std.TransCmp.isLE_trans hab hbc

theorem bytesLe_total (a b : Bytes) : (bytesLe a b || bytesLe b a) = true := by
  have hswap : compare b a = (compare a b).swap := Std.OrientedCmp.eq_swap
  unfold bytesLe
  rw [hswap]
  cases compare a b <;> rfl

theorem lt_of_bytesLe {a b : Bytes} (h : a ≠ b) (hle : bytesLe a b = true) : compare a b = .lt := by
  unfold bytesLe at hle
  cases hc : compare a b with
  | lt => rfl
  | eq => exact absurd (Std.LawfulEqCmp.eq_of_compare hc) h
  | gt => rw [hc] at hle; cases hle

theorem page_eq (all : List Bytes) (cursor : Nat) (count : Int) :
    page all cursor count = Paging.page (pageSize count) all cursor := by
  unfold page Paging.page pageSize
  dsimp only
  generalize (if count ≤ 0 then 10 else count.toNat) = size
  split
  · rfl
  next h =>
    by_cases hs : all.length ≤ cursor + size
    · rw [Nat.min_eq_right hs, if_pos (Nat.le_refl _), if_pos hs, List.take_length]
      rw [List.take_of_length_le (l := all.drop cursor) (by rw [List.length_drop]; omega)]
    · rw [Nat.min_eq_left (by omega), if_neg hs, List.drop_take, Nat.add_sub_cancel_left]

theorem pageSize_pos (count : Int) : 0 < pageSize count := by
  unfold pageSize
  split <;> omega

/-- In a list in increasing order an element stands behind those below it. -/
theorem getElem?_below {l : List Bytes} {x : Bytes} (h : l.Pairwise fun a b => compare a b = .lt) (hx : x ∈ l) :
    l[(l.filter fun y => (compare y x).isLT).length]? = some x := by
  induction l with
  | nil => cases hx
  | cons y l ih =>
    obtain ⟨hy, hl⟩ := List.pairwise_cons.mp h
    by_cases hxy : x = y
    · subst hxy
      have hcmp : compare x x = .eq := Std.ReflCmp.compare_self
      have hself : ¬(compare x x).isLT = true := by
        rw [hcmp]
        exact Bool.false_ne_true
      have hnone : l.filter (fun z => (compare z x).isLT) = [] := by
        refine List.filter_eq_nil_iff.mpr fun z hz => ?_
        rw [Std.OrientedCmp.gt_of_lt (hy z hz)]
        exact Bool.false_ne_true
      rw [List.filter_cons_of_neg (p := fun z => (compare z x).isLT) hself, hnone]
      rfl
    · have hmem := (List.mem_cons.mp hx).resolve_left hxy
      have hlt : (compare y x).isLT = true := by rw [hy x hmem]; rfl
      rw [List.filter_cons_of_pos (p := fun z => (compare z x).isLT) hlt, List.length_cons, List.getElem?_cons_succ]
      exact ih hl hmem

theorem getElem?_unpair {α : Type} (l : List (α × α)) (i : Nat) :
    (Paging.unpair l)[2 * i]? = (l[i]?).map Prod.fst := by
  induction l generalizing i with
  | nil => rfl
  | cons p l ih =>
    cases i with
    | zero => rfl
    | succ i => exact ih i

variable {key : Bytes}

namespace KvStore

variable {db : Int} {s : KvStore F}

theorem mem_dbKeys : key ∈ s.dbKeys db ↔ (s.item db key).isSome := by
  unfold dbKeys
  rw [List.mem_flatMap]
  constructor
  · rintro ⟨i, -, hi⟩
    exact (mem_dbMap.mp (Std.ExtTreeMap.mem_keys.mp hi)).2
  · intro h
    exact ⟨shardIdx F key, List.mem_finRange _, Std.ExtTreeMap.mem_keys.mpr (mem_dbMap.mpr ⟨rfl, h⟩)⟩

theorem nodup_dbKeys : (s.dbKeys db).Nodup := by
  refine List.nodup_flatMap.mpr ⟨fun i _ => Std.ExtTreeMap.nodup_keys, ?_⟩
  refine (List.nodup_finRange 16).imp fun {i j} hne key hi hj => hne ?_
  rw [← (mem_dbMap.mp (Std.ExtTreeMap.mem_keys.mp hi)).1, (mem_dbMap.mp (Std.ExtTreeMap.mem_keys.mp hj)).1]

end KvStore

namespace ScanTarget

variable {t : ScanTarget} {db : Int} {pattern name : Bytes} {count : Int} {m : Moment F}

theorem valueAt_eq_some {V : Type} {L : Field F V} {v : V} :
    valueAt L db key m = some v ↔ ∃ o, m.store.live m.env.now db key = some o ∧ o.type = L.type ∧ L.get o.toObj = v := by
  unfold valueAt
  rw [Option.map_eq_some_iff]
  refine exists_congr fun o => ?_
  rw [Option.filter_eq_some_iff, decide_eq_true_eq, and_assoc]

theorem onField_valueAt {V α : Type} {L : Field F V} {v : V} (h : valueAt L db key m = some v)
    (f : Option V → Out V (Except Bytes α)) : (StoreM.onField L db key f m.env m.store).1 = (f (some v)).reply := by
  obtain ⟨o, hl, ht, rfl⟩ := valueAt_eq_some.mp h
  rw [onField_reply (fun o' hl' => by rw [hl] at hl'; cases hl'; exact ht), hl]
  rfl

theorem mem_keys : name ∈ (KvStore.keys db pattern m.env m.store).1 ↔
    m.store.live m.env.now db name ≠ none ∧ matchGlob pattern name = true := by
  show name ∈ List.mergeSort _ bytesLe ↔ _
  rw [List.mem_mergeSort, List.mem_filter, KvStore.mem_dbKeys, KvStore.item_purgeExpiredDb, if_pos rfl,
    Option.isSome_iff_ne_none]

theorem mem_matching : name ∈ t.matching db pattern m ↔ t.Present db m name ∧ matchGlob pattern name = true := by
  cases t with
  | keys => exact mem_keys
  | fields key =>
    dsimp only [matching, Present]
    cases hv : valueAt Field.hash db key m with
    | none => simp
    | some h =>
      simp only [Option.getD_some, List.mem_map, List.mem_filter, Option.some.injEq, exists_eq_left']
      constructor
      · rintro ⟨f, ⟨hf, hp⟩, rfl⟩
        exact ⟨Std.ExtTreeMap.mem_of_mem_keys (by rw [← Std.ExtTreeMap.map_fst_toList_eq_keys]; exact List.mem_map_of_mem hf), hp⟩
      · rintro ⟨hmem, hp⟩
        obtain ⟨v, hv⟩ := Option.isSome_iff_exists.mp (Std.ExtTreeMap.mem_iff_isSome_getElem?.mp hmem)
        exact ⟨(name, v), ⟨Std.ExtTreeMap.mem_toList_iff_getElem?_eq_some.mpr hv, hp⟩, rfl⟩
  | members key =>
    dsimp only [matching, Present]
    cases hv : valueAt Field.sets db key m with
    | none => simp
    | some a => simp

theorem sorted_matching : (t.matching db pattern m).Pairwise fun a b => compare a b = .lt := by
  cases t with
  | keys =>
    have hsorted : ((KvStore.keys db pattern m.env m.store).1).Pairwise fun a b => bytesLe a b = true :=
      List.pairwise_mergeSort bytesLe_trans bytesLe_total _
    have hnodup : ((KvStore.keys db pattern m.env m.store).1).Nodup :=
      (List.mergeSort_perm _ _).nodup_iff.mpr (KvStore.nodup_dbKeys.filter _)
    exact (hsorted.and hnodup).imp fun h => lt_of_bytesLe h.2 h.1
  | fields key => exact List.pairwise_map.mpr (Std.ExtTreeMap.ordered_keys_toList.filter _)
  | members key => exact Std.ExtTreeSet.ordered_toList.filter _

/-- What a call cuts a page from. -/
def listing (t : ScanTarget) (db : Int) (pattern : Bytes) (m : Moment F) : List Bytes :=
  match t with
  | .fields key => Paging.unpair (((valueAt .hash db key m).getD ∅).toList.filter fun f => matchGlob pattern f.1)
  | _ => t.matching db pattern m

theorem call_eq (h : t.Present db m name) (cursor : Nat) :
    t.call db pattern count m cursor = some (Paging.page (pageSize count) (t.listing db pattern m) cursor) := by
  cases t with
  | keys =>
    rw [← page_eq]
    rfl
  | fields key =>
    obtain ⟨v, hv, -⟩ := h
    dsimp only [call, listing]
    unfold KvStore.hscan
    rw [onField_valueAt hv, hv, ← page_eq]
    rfl
  | members key =>
    obtain ⟨v, hv, -⟩ := h
    dsimp only [call, listing, matching]
    unfold KvStore.sscan
    rw [onField_valueAt hv, hv, ← page_eq]
    rfl

theorem getElem?_listing (h : name ∈ t.matching db pattern m) :
    (t.listing db pattern m)[t.place db pattern name m]? = some name := by
  have hat := getElem?_below sorted_matching h
  cases t with
  | fields key =>
    unfold place
    dsimp only [listing, width]
    rw [getElem?_unpair, ← List.getElem?_map]
    exact hat
  | keys =>
    unfold place
    dsimp only [listing, width]
    rw [Nat.one_mul]
    exact hat
  | members key =>
    unfold place
    dsimp only [listing, width]
    rw [Nat.one_mul]
    exact hat

end ScanTarget

/-! ## Top theorem -/

/-- Every name that is there at every call is shown, if none falls in front of the cursor between two calls. -/
theorem scan_shows_all (t : ScanTarget) (db : Int) (pattern : Bytes) (count : Int) (moments : List (Moment F))
    (pages : List (List Bytes)) (hit : Paging.Iteration (t.call db pattern count) 0 moments pages)
    (hkeep : Paging.Between (t.call db pattern count) (t.Keeps db pattern) 0 moments) (name : Bytes)
    (hmatch : matchGlob pattern name = true) (hthere : ∀ m ∈ moments, t.Present db m name) :
    ∃ page ∈ pages, name ∈ page := by
  have hmem : ∀ m ∈ moments, name ∈ t.matching db pattern m := fun m hm =>
    ScanTarget.mem_matching.mpr ⟨hthere m hm, hmatch⟩
  have hplace : ∀ m ∈ moments, (t.listing db pattern m)[t.place db pattern name m]? = some name := fun m hm =>
    ScanTarget.getElem?_listing (hmem m hm)
  exact hit.shown (fun m hm => ScanTarget.call_eq (hthere m hm)) hplace (pageSize_pos count)
    (hkeep.mono fun c i hi j hj hq => hq name (hmem i hi) (hmem j hj)) fun m _ => Nat.zero_le _

/-- A database with strings under some keys. -/
def stringsUnder (keys : List Bytes) : Moment Int :=
  { env := { now := 0 }, store := keys.foldl (fun s key => s.putEntry 0 key (some { value := lit "1" })) KvStore.empty }

theorem matching_stringsUnder {keys : List Bytes}
    (hkeys : (((KvStore.purgeExpiredDb 0 { now := 0 } (stringsUnder keys).store).2.dbKeys 0).filter (matchGlob (lit "*"))) = keys)
    (hsorted : keys.Pairwise fun a b => bytesLe a b = true) :
    ScanTarget.keys.matching 0 (lit "*") (stringsUnder keys) = keys := by
  show List.mergeSort _ bytesLe = keys
  rw [show (stringsUnder keys).env = { now := 0 } from rfl, hkeys, List.mergeSort_of_pairwise hsorted]

theorem call_stringsUnder {keys : List Bytes} (h : ScanTarget.keys.matching 0 (lit "*") (stringsUnder keys) = keys)
    (count : Int) (cursor : Nat) :
    ScanTarget.keys.call 0 (lit "*") count (stringsUnder keys) cursor = some (page keys cursor count) := by
  show some (page (ScanTarget.keys.matching 0 (lit "*") (stringsUnder keys)) cursor count) = _
  rw [h]

theorem matching_abc :
    ScanTarget.keys.matching 0 (lit "*") (stringsUnder [lit "a", lit "b", lit "c"]) = [lit "a", lit "b", lit "c"] :=
  matching_stringsUnder (by decide +kernel) (by decide)

/-- A key is added behind the cursor between the calls. -/
theorem scan_shows_all_same :
    ∃ page ∈ [[lit "a", lit "b"], [lit "c", lit "d"]], lit "c" ∈ page := by
  have hmore : ScanTarget.keys.matching 0 (lit "*") (stringsUnder [lit "a", lit "b", lit "c", lit "d"]) =
      [lit "a", lit "b", lit "c", lit "d"] := matching_stringsUnder (by decide +kernel) (by decide)
  refine scan_shows_all .keys 0 (lit "*") 2
    [stringsUnder [lit "a", lit "b", lit "c"], stringsUnder [lit "a", lit "b", lit "c", lit "d"]] _
    (.next (call_stringsUnder matching_abc 2 0) (by decide) (.last (call_stringsUnder hmore 2 2)))
    (fun r _ => ⟨fun name hname _ hle => ?_, trivial⟩) (lit "c") (by decide) ?_
  · have hsame : ∀ name ∈ [lit "a", lit "b", lit "c"],
        ScanTarget.keys.place 0 (lit "*") name (stringsUnder [lit "a", lit "b", lit "c", lit "d"]) =
          ScanTarget.keys.place 0 (lit "*") name (stringsUnder [lit "a", lit "b", lit "c"]) := by
      simp only [ScanTarget.place, hmore, matching_abc]
      decide
    rw [matching_abc] at hname
    rwa [hsame name hname]
  · have hlive : ∀ keys ∈ [[lit "a", lit "b", lit "c"], [lit "a", lit "b", lit "c", lit "d"]],
        (stringsUnder keys).store.live 0 0 (lit "c") ≠ none := by decide +kernel
    intro m hm
    simp only [List.mem_cons, List.not_mem_nil, or_false] at hm
    obtain rfl | rfl := hm
    · exact hlive _ (by decide)
    · exact hlive _ (by decide)

/-- DEL of a key that was shown: the next call starts one key too late. -/
theorem scan_skips :
    ¬∀ (t : ScanTarget) (db : Int) (pattern : Bytes) (count : Int) (moments : List (Moment Int)) (pages : List (List Bytes)),
      Paging.Iteration (t.call db pattern count) 0 moments pages → ∀ name, matchGlob pattern name = true →
        (∀ m ∈ moments, t.Present db m name) → ∃ page ∈ pages, name ∈ page := by
  intro h
  have hbc : ScanTarget.keys.matching 0 (lit "*") (stringsUnder [lit "b", lit "c"]) = [lit "b", lit "c"] :=
    matching_stringsUnder (by decide +kernel) (by decide)
  have hit : Paging.Iteration (ScanTarget.keys.call 0 (lit "*") 1) 0
      [stringsUnder [lit "a", lit "b", lit "c"], stringsUnder [lit "b", lit "c"]] [[lit "a"], [lit "c"]] :=
    .next (call_stringsUnder matching_abc 1 0) (by decide) (.last (call_stringsUnder hbc 1 1))
  have hab : (stringsUnder [lit "a", lit "b", lit "c"]).store.live 0 0 (lit "b") ≠ none := by decide +kernel
  have hb : (stringsUnder [lit "b", lit "c"]).store.live 0 0 (lit "b") ≠ none := by decide +kernel
  obtain ⟨page, hpage, hmem⟩ := h .keys 0 (lit "*") 1 _ _ hit (lit "b") (by rfl) (by
    intro m hm
    obtain rfl | rfl : m = stringsUnder [lit "a", lit "b", lit "c"] ∨ m = stringsUnder [lit "b", lit "c"] := by simpa using hm
    · exact hab
    · exact hb)
  obtain rfl | rfl : page = [lit "a"] ∨ page = [lit "c"] := by simpa using hpage
  · exact absurd hmem (by decide)
  · exact absurd hmem (by decide)

end Kv
