import ZeroFrameworks.Kv.Persistence.DumpListing
import ZeroFrameworks.Kv.Store.Orderly

/-!
# What RESTORE accepts

RESTORE should accept what DUMP writes.  It reads any type byte, looks at six of the eight magic bytes, at no byte
behind the value, and at no name or count.  `Clean` payloads are those in which all of this is as DUMP writes it.

    accepted payloads are dumps of entries, and accepting them keeps the store in shape ↔
      the key is in the way, or what the payload holds is Clean   (restoreSound_iff)
-/

namespace Kv

open Codec

variable {F : Type}

/-! ## Specification -/

section
variable [Platform F]

/-- A hash, list, set or sorted set has items. -/
structure Obj.NonEmpty (o : Obj F) : Prop where
  hash : o.type = .hash → o.hash.isEmpty = false
  list : o.type = .list → o.list ≠ []
  set : o.type = .set → o.set.isEmpty = false
  zset : o.type = .zset → o.zset.isEmpty = false

/-- A payload that is accepted is a dump of an entry, and the store keeps its shape. -/
def RestoreSound (env : Env) (s : KvStore F) (db : Int) (key : Bytes) (ttl : Int) (payload : Bytes)
    (replace : Bool) : Prop :=
  (KvStore.restoreKey db key ttl payload replace env s).1 = .ok () →
    (∃ o : Item F, o.toObj.NonEmpty ∧ o.Dumps payload) ∧
      (s.All Obj.Shaped → (KvStore.restoreKey db key ttl payload replace env s).2.All Obj.Shaped)

end

/-! ## Clean payloads -/

/-- An id that is pending twice has the same delivery data. -/
def RawConsumer.Clean (c : RawConsumer) : Prop := ∀ p ∈ c.pending, ∀ q ∈ c.pending, p.1 = q.1 → p = q

def RawGroup.Clean (g : RawGroup) : Prop := (g.consumers.map RawConsumer.name).Nodup ∧ ∀ c ∈ g.consumers, c.Clean

/-- No name stands twice in a container, no container that must have items is empty, and scores are doubles. -/
def RawValue.Clean (F : Type) [Platform F] : RawValue → Prop
  | .string _ => True
  | .hash l => l ≠ [] ∧ (l.map Prod.fst).Nodup
  | .list l => l ≠ []
  | .set l => l ≠ [] ∧ l.Nodup
  | .zset l => l ≠ [] ∧ (l.map Prod.fst).Nodup ∧ ∀ z ∈ l, Platform.toBytes (Platform.ofBytes z.2 : F) = z.2
  | .stream _ _ items groups =>
    (∀ e ∈ items, (e.fields.map Prod.fst).Nodup) ∧ (groups.map RawGroup.name).Nodup ∧ ∀ g ∈ groups, g.Clean

structure RawDump.Clean (F : Type) [Platform F] (d : RawDump) : Prop where
  pad : d.pad = [0, 0]
  code : d.code ≤ 5
  value : d.value.Clean F
  tail : d.tail = []

/-! ## Containers -/

section
variable {V β : Type} {name : β → Bytes} {R : V → β → Prop} {l : List β}

theorem pairwise_names {xs : List (Bytes × V)} (h : (xs.map Prod.fst).Nodup) :
    xs.Pairwise fun a b => ¬compare a.1 b.1 = .eq := by
  have hne : xs.Pairwise fun a b => a.1 ≠ b.1 := List.pairwise_map.mp h
  exact hne.imp fun hab hc => hab (Std.LawfulEqCmp.compare_eq_iff_eq.mp hc)

theorem listsMap_ofList (dec : β → V) (hn : (l.map name).Nodup) (hR : ∀ x ∈ l, R (dec x) x) :
    ListsMap name R (Std.ExtTreeMap.ofList (l.map fun x => (name x, dec x)) compare) l := by
  have hnames : (l.map fun x => (name x, dec x)).map Prod.fst = l.map name := by
    rw [List.map_map]
    rfl
  refine ⟨hn, fun x hx => ⟨dec x, ?_, hR x hx⟩, fun k hk => ?_⟩
  · have hmem : (name x, dec x) ∈ l.map fun x => (name x, dec x) := List.mem_map_of_mem hx
    exact Std.ExtTreeMap.getElem?_ofList_of_mem Std.ReflCmp.compare_self (pairwise_names (by rwa [hnames])) hmem
  · rw [Std.ExtTreeMap.mem_ofList, hnames, List.contains_iff_mem] at hk
    exact hk

theorem ListsMap.isEmpty_iff {m : BMap V} (h : ListsMap name R m l) : m.isEmpty = false ↔ l ≠ [] := by
  rw [Std.ExtTreeMap.isEmpty_eq_false_iff]
  constructor
  · rintro hm rfl
    refine hm (Std.ExtTreeMap.ext_getElem? fun k => ?_)
    rw [Std.ExtTreeMap.getElem?_empty, Std.ExtTreeMap.getElem?_eq_none]
    exact fun hk => List.not_mem_nil (h.all k hk)
  · rintro hl rfl
    obtain ⟨x, l, rfl⟩ := List.exists_cons_of_ne_nil hl
    obtain ⟨v, hv, -⟩ := h.each x List.mem_cons_self
    rw [Std.ExtTreeMap.getElem?_empty] at hv
    cases hv

/-- A name that stands twice with the same value. -/
theorem getElem?_ofList_agree {xs : List (Bytes × V)} (h : ∀ p ∈ xs, ∀ q ∈ xs, p.1 = q.1 → p = q) {p : Bytes × V}
    (hp : p ∈ xs) : (Std.ExtTreeMap.ofList xs compare)[p.1]? = some p.2 := by
  rw [Std.ExtTreeMap.ofList_eq_insertMany_empty, Std.ExtTreeMap.getElem?_insertMany_list,
    List.findSomeRev?_eq_findSome?_reverse]
  cases hf : xs.reverse.findSome? fun x => if compare x.1 p.1 = .eq then some x.2 else none with
  | none =>
    have hnone := List.findSome?_eq_none_iff.mp hf p (List.mem_reverse.mpr hp)
    rw [if_pos Std.ReflCmp.compare_self] at hnone
    cases hnone
  | some v =>
    obtain ⟨q, hq, hv⟩ := List.exists_of_findSome?_eq_some hf
    split at hv
    next hc =>
      obtain rfl := Option.some.inj hv
      rw [h p hp q (List.mem_reverse.mp hq) (Std.LawfulEqCmp.compare_eq_iff_eq.mp hc).symm]
      rfl
    next => cases hv

end

theorem listsPairs_ofList {l : RawPairs} (hn : (l.map Prod.fst).Nodup) :
    ListsPairs (Std.ExtTreeMap.ofList l compare) l := by
  have hl := listsMap_ofList (R := fun v p => p.2 = v) Prod.snd hn fun _ _ => rfl
  rwa [show (l.map fun x => (x.1, x.2)) = l from List.map_id l] at hl

/-! ## What a clean payload holds -/

theorem RawConsumer.lists_toState {c : RawConsumer} (h : c.Clean) : c.toState.2.Lists c := by
  refine ⟨rfl, ?_⟩
  rw [RawConsumer.toState, List.map_map]
  conv => lhs; rw [← List.map_id c.pending]
  refine List.map_congr_left fun p hp => ?_
  simp only [Function.comp_apply, getElem?_ofList_agree h hp, Option.getD_some, id]

theorem RawGroup.lists_toState {g : RawGroup} (h : g.Clean) : g.toState.2.Lists g :=
  ⟨rfl, listsMap_ofList (fun c => c.toState.2) h.1 fun c hc => c.lists_toState (h.2 c hc)⟩

theorem lists_toEntry {items : List RawItem} (h : ∀ e ∈ items, (e.fields.map Prod.fst).Nodup) :
    List.Forall₂ StreamEntry.Lists (items.map RawItem.toEntry) items := by
  rw [List.forall₂_map_left_iff, List.forall₂_same]
  exact fun e he => ⟨rfl, listsPairs_ofList (h e he)⟩

theorem isEmpty_ofList {l : List Bytes} (h : l ≠ []) : (Std.ExtTreeSet.ofList l compare).isEmpty = false := by
  rw [Std.ExtTreeSet.isEmpty_eq_false_iff]
  intro he
  obtain ⟨x, l, rfl⟩ := List.exists_cons_of_ne_nil h
  have hx : x ∈ Std.ExtTreeSet.ofList (x :: l) compare := by
    rw [Std.ExtTreeSet.mem_ofList, List.contains_iff_mem]
    exact List.mem_cons_self
  rw [he] at hx
  exact Std.ExtTreeSet.not_mem_empty hx

theorem known_code {c : UInt8} (h : c ≤ 5) : ObjType.ofCode c ≠ .other c ∧ (ObjType.ofCode c).code = c := by
  have hle : c.toNat ≤ 5 := UInt8.le_iff_toNat_le.mp h
  have hcases : c = 0 ∨ c = 1 ∨ c = 2 ∨ c = 3 ∨ c = 4 ∨ c = 5 := by
    simp only [← UInt8.toNat_inj, UInt8.reduceToNat]
    omega
  rcases hcases with rfl | rfl | rfl | rfl | rfl | rfl <;> decide

section
variable [Platform F]

/-- What RESTORE makes of a clean value: an entry that is listed so, is not empty, and has its shape. -/
theorem RawValue.clean_toObj {t : ObjType} {v : RawValue} (ht : t.Valid) (hfor : v.For t) (hfits : v.Fits)
    (h : v.Clean F) : (v.toObj t : Obj F).Lists v ∧ (v.toObj t : Obj F).NonEmpty ∧ (v.toObj t : Obj F).Shaped := by
  cases t with
  | other c => exact absurd rfl (ht c)
  | string =>
    cases v with
    | string s => exact ⟨⟨rfl, rfl⟩, by constructor <;> rintro ⟨⟩, Field.keeps_string.fresh s trivial⟩
    | _ => exact hfor.elim
  | hash =>
    cases v with
    | hash l =>
      have hl := listsPairs_ofList h.2
      have hne := hl.isEmpty_iff.mpr h.1
      exact ⟨⟨rfl, hl⟩, ⟨fun _ => hne, by rintro ⟨⟩, by rintro ⟨⟩, by rintro ⟨⟩⟩, Field.keeps_hash.fresh _ hne⟩
    | _ => exact hfor.elim
  | list =>
    cases v with
    | list l =>
      have hne : l.isEmpty = false := by simpa [RawValue.Clean] using h
      exact ⟨⟨rfl, rfl⟩, ⟨by rintro ⟨⟩, fun _ => h, by rintro ⟨⟩, by rintro ⟨⟩⟩, Field.keeps_list.fresh _ hne⟩
    | _ => exact hfor.elim
  | set =>
    cases v with
    | set l =>
      have hne := isEmpty_ofList h.1
      refine ⟨⟨rfl, h.2, fun x => ?_⟩, ⟨by rintro ⟨⟩, by rintro ⟨⟩, fun _ => hne, by rintro ⟨⟩⟩,
        Field.keeps_sets.fresh _ hne⟩
      rw [RawValue.toObj, Std.ExtTreeSet.mem_ofList, List.contains_iff_mem]
    | _ => exact hfor.elim
  | zset =>
    cases v with
    | zset l =>
      have hscore : ∀ z ∈ l, IsDouble (Platform.ofBytes z.2 : F) ∧ z.2 = Platform.toBytes (Platform.ofBytes z.2 : F) := by
        intro z hz
        have hz' := h.2.2 z hz
        exact ⟨⟨by rw [hz']; exact (hfits.2 z hz).2, by rw [hz']⟩, hz'.symm⟩
      have hl : ListsMap Prod.fst (fun (x : F) z => IsDouble x ∧ z.2 = Platform.toBytes x) _ l :=
        listsMap_ofList (fun z => Platform.ofBytes z.2) h.2.1 hscore
      have hne := hl.isEmpty_iff.mpr h.1
      exact ⟨⟨rfl, hl⟩, ⟨by rintro ⟨⟩, by rintro ⟨⟩, by rintro ⟨⟩, fun _ => hne⟩, Field.keeps_zset.fresh _ hne⟩
    | _ => exact hfor.elim
  | stream =>
    cases v with
    | stream ms seq items groups =>
      have hg : ListsMap RawGroup.name StreamGroupState.Lists _ groups :=
        listsMap_ofList (fun g => g.toState.2) h.2.1 fun g hg => g.lists_toState (h.2.2 g hg)
      refine ⟨⟨rfl, rfl, rfl, lists_toEntry h.1, hg⟩, by constructor <;> rintro ⟨⟩, ?_⟩
      constructor <;> simp [RawValue.toObj]
    | _ => exact hfor.elim

theorem RawDump.clean_dumps {d : RawDump} (hfits : d.Fits) (h : d.Clean F) :
    Item.Dumps ({ (d.toObj : Obj F) with expireAtMs := d.deadline } : Item F) d.bytes ∧ (d.toObj : Obj F).NonEmpty ∧
      (d.toObj : Obj F).Shaped := by
  have hcode := known_code h.code
  have ht : (ObjType.ofCode d.code).Valid := by
    intro c hc
    have hback := hcode.2
    rw [hc] at hback
    exact hcode.1 (hc.trans (congrArg ObjType.other hback))
  obtain ⟨hlists, hne, hshaped⟩ := RawValue.clean_toObj ht hfits.type hfits.value h.value
  refine ⟨⟨d.value, hlists, hfits.value, hfits.deadline, ?_⟩, hne, hshaped⟩
  have htype : (d.toObj : Obj F).type = .ofCode d.code := by
    unfold RawDump.toObj
    cases d.value <;> rfl
  show d.bytes = KvStore.dumpMagic ++ (appendI64 d.deadline ++ (appendU8 (d.toObj : Obj F).type.code ++ d.value.bytes))
  rw [htype, hcode.2, RawDump.bytes, h.pad, h.tail, List.append_nil, KvStore.dumpMagic, List.append_assoc]

/-! ## What a dump is read as -/

theorem nodup_fields {es : List StreamEntry} {items : List RawItem} (h : List.Forall₂ StreamEntry.Lists es items) :
    ∀ x ∈ items, (x.fields.map Prod.fst).Nodup := by
  induction h with
  | nil => exact fun x hx => by cases hx
  | cons hx _ ih => exact List.forall_mem_cons.mpr ⟨hx.fields.once, ih⟩

theorem StreamConsumerState.Lists.clean {c : StreamConsumerState} {x : RawConsumer} (h : c.Lists x) : x.Clean := by
  intro p hp q hq heq
  rw [h.pending] at hp hq
  obtain ⟨id, -, rfl⟩ := List.mem_map.mp hp
  obtain ⟨id', -, rfl⟩ := List.mem_map.mp hq
  obtain rfl : id = id' := heq
  rfl

theorem Obj.Lists.clean {o : Obj F} {v : RawValue} (h : o.Lists v) (hne : o.NonEmpty) :
    v.Clean F ∧ v.For o.type ∧ o.type.Valid := by
  cases v with
  | string s => exact ⟨trivial, by rw [h.1]; trivial, fun c hc => by rw [h.1] at hc; cases hc⟩
  | hash l =>
    refine ⟨⟨h.2.isEmpty_iff.mp (hne.hash h.1), h.2.once⟩, by rw [h.1]; trivial, fun c hc => ?_⟩
    rw [h.1] at hc
    cases hc
  | list l =>
    refine ⟨?_, by rw [h.1]; trivial, fun c hc => ?_⟩
    · rw [RawValue.Clean, h.2]
      exact hne.list h.1
    · rw [h.1] at hc
      cases hc
  | set l =>
    refine ⟨⟨?_, h.2.1⟩, by rw [h.1]; trivial, fun c hc => ?_⟩
    · rintro rfl
      refine Std.ExtTreeSet.isEmpty_eq_false_iff.mp (hne.set h.1) (Std.ExtTreeSet.ext_mem fun x => ?_)
      rw [← h.2.2 x]
      simp
    · rw [h.1] at hc
      cases hc
  | zset l =>
    refine ⟨⟨h.2.isEmpty_iff.mp (hne.zset h.1), h.2.once, fun z hz => ?_⟩, by rw [h.1]; trivial, fun c hc => ?_⟩
    · obtain ⟨v, -, hv, hz⟩ := h.2.each z hz
      rw [hz, hv.2]
    · rw [h.1] at hc
      cases hc
  | stream ms seq items groups =>
    obtain ⟨ht, -, -, hitems, hgroups⟩ := h
    refine ⟨⟨nodup_fields hitems, hgroups.once, fun x hx => ?_⟩, by rw [ht]; trivial, fun c hc => ?_⟩
    · obtain ⟨g, -, hg⟩ := hgroups.each x hx
      refine ⟨hg.consumers.once, fun y hy => ?_⟩
      obtain ⟨c, -, hc⟩ := hg.consumers.each y hy
      exact hc.clean
    · rw [ht] at hc
      cases hc

theorem code_known {t : ObjType} (h : t.Valid) : t.code ≤ 5 ∧ ObjType.ofCode t.code = t := by
  cases t with
  | other c => exact absurd rfl (h c)
  | _ => exact ⟨by decide, rfl⟩

theorem Item.Dumps.clean {o : Item F} {payload : Bytes} (h : o.Dumps payload) (hne : o.toObj.NonEmpty) :
    ∃ d : RawDump, d.Fits ∧ d.Clean F ∧ payload = d.bytes := by
  obtain ⟨v, hlists, hfits, hdeadline, rfl⟩ := h
  obtain ⟨hclean, hfor, htype⟩ := hlists.clean hne
  obtain ⟨hle, hcode⟩ := code_known htype
  refine ⟨⟨[0, 0], o.expireAtMs, o.type.code, v, []⟩, ⟨rfl, hdeadline, ?_, hfits⟩, ⟨rfl, hle, hclean, rfl⟩, ?_⟩
  · show v.For (.ofCode o.type.code)
    rwa [hcode]
  · rw [RawDump.bytes, List.append_nil, KvStore.dumpMagic, List.append_assoc]

/-! ## Top theorem -/

section
variable {env : Env} {s : KvStore F} {db : Int} {key : Bytes} {ttl : Int} {payload : Bytes} {replace : Bool}

theorem restoreKey_ok {o : Obj F} (h : KvStore.parseDump payload = .ok o) :
    KvStore.restoreKey db key ttl payload replace env s =
      s.onEntry env.now db key (KvStore.restoreBody o (KvStore.restoreDeadline env.now ttl) replace) := by
  unfold KvStore.restoreKey
  rw [h]
  rfl

omit [Platform F] in
theorem restoreBody_reply (o : Obj F) (deadline : Int) (old : Option (Item F)) :
    (KvStore.restoreBody o deadline replace old).reply = .ok () ↔ ¬(old.isSome = true ∧ replace = false) := by
  unfold KvStore.restoreBody
  cases old <;> cases replace <;> simp

theorem restoreKey_accepts : (KvStore.restoreKey db key ttl payload replace env s).1 = .ok () ↔
    ¬((s.live env.now db key).isSome = true ∧ replace = false) ∧ ∃ d : RawDump, d.Fits ∧ payload = d.bytes := by
  cases hp : (KvStore.parseDump payload : Except Bytes (Obj F)) with
  | ok o =>
    obtain ⟨d, hd, heq, -⟩ := parseDump_iff.mp hp
    rw [restoreKey_ok hp, KvStore.onEntry_reply, restoreBody_reply]
    exact ⟨fun h => ⟨h, d, hd, heq⟩, And.left⟩
  | error e =>
    have hreply : (KvStore.restoreKey db key ttl payload replace env s).1 = .error e := by
      unfold KvStore.restoreKey
      rw [hp]
      rfl
    rw [hreply]
    refine ⟨fun h => (by cases h), ?_⟩
    rintro ⟨-, d, hd, heq⟩
    have hok : KvStore.parseDump payload = .ok (d.toObj : Obj F) := parseDump_iff.mpr ⟨d, hd, heq, rfl⟩
    rw [hp] at hok
    cases hok

theorem restoreKey_shaped {o : Obj F} (h : KvStore.parseDump payload = .ok o) (ho : o.Shaped)
    (hs : s.All Obj.Shaped) : (KvStore.restoreKey db key ttl payload replace env s).2.All Obj.Shaped := by
  rw [restoreKey_ok h]
  refine hs.onEntry fun q hq => ?_
  unfold KvStore.restoreBody at hq
  split at hq
  · cases hq
  · cases hq
    exact ho

/-- RESTORE keeps to dumps if the key is in the way, or the payload is clean as far as it can be read. -/
theorem restoreSound_iff : RestoreSound env s db key ttl payload replace ↔
    ((s.live env.now db key).isSome = true ∧ replace = false) ∨
      ∀ d : RawDump, d.Fits → payload = d.bytes → d.Clean F := by
  constructor
  · intro h
    by_cases hbusy : (s.live env.now db key).isSome = true ∧ replace = false
    · exact .inl hbusy
    · refine .inr fun d hd heq => ?_
      obtain ⟨⟨o, hne, hdump⟩, -⟩ := h (restoreKey_accepts.mpr ⟨hbusy, d, hd, heq⟩)
      obtain ⟨d', hd', hclean, heq'⟩ := hdump.clean hne
      rwa [RawDump.ext_bytes hd hd' (heq.symm.trans heq')]
  · intro h hok
    obtain ⟨hfree, d, hd, rfl⟩ := restoreKey_accepts.mp hok
    have hclean := (h.resolve_left hfree) d hd rfl
    obtain ⟨hdump, hne, hshaped⟩ := RawDump.clean_dumps (F := F) hd hclean
    exact ⟨⟨_, hne, hdump⟩, restoreKey_shaped (parseDump_iff.mpr ⟨d, hd, rfl, rfl⟩) hshaped⟩

end

/-- A payload behind the magic of DUMP. -/
def behindMagic (code : UInt8) (rest : Bytes) : Bytes :=
  KvStore.dumpMagic ++ (appendI64 0 ++ (appendU8 code ++ rest))

omit [Platform F] in
theorem not_restoreSound {d : RawDump} (hd : d.Fits) (h : ¬d.Clean Int) :
    ¬RestoreSound { now := 10 } (KvStore.empty : KvStore Int) 0 (lit "k") 0 d.bytes false := by
  intro hs
  rcases restoreSound_iff.mp hs with ⟨hlive, -⟩ | hclean
  · cases hlive
  · exact h (hclean d hd rfl)

end

/-- A type that no entry has, a byte behind the value, and an empty list. -/
theorem restores_no_dumps :
    let accepts := fun payload =>
      RestoreSound { now := 10 } (KvStore.empty : KvStore Int) 0 (lit "k") 0 payload false
    ¬accepts (behindMagic 9 (appendStr (lit "v"))) ∧ ¬accepts (behindMagic 0 (appendStr (lit "v") ++ [7])) ∧
      ¬accepts (behindMagic 2 (appendU32 0)) := by
  have hsmall : Small (lit "v") := by
    unfold Small
    decide
  have hzero : IsI64 0 := by
    unfold IsI64
    decide
  refine ⟨?_, ?_, ?_⟩
  · exact not_restoreSound (d := ⟨[0, 0], 0, 9, .string (lit "v"), []⟩) ⟨rfl, hzero, trivial, hsmall⟩
      fun h => absurd h.code (by decide)
  · exact not_restoreSound (d := ⟨[0, 0], 0, 0, .string (lit "v"), [7]⟩) ⟨rfl, hzero, trivial, hsmall⟩
      fun h => absurd h.tail (by decide)
  · exact not_restoreSound (d := ⟨[0, 0], 0, 2, .list [], []⟩)
      ⟨rfl, hzero, trivial, by decide, fun x hx => by cases hx⟩ fun h => h.value rfl

end Kv
