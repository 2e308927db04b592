import ZeroFrameworks.Kv.Persistence.RdbFormat

/-!
# Snapshots come back

`dumpBinaryV2` at one time and `loadBinaryV2` at a later one: the load succeeds, and the store then
holds the entries that are unexpired at both times, with their type, deadline and contents.
`saved` says what is kept of an entry: the fields of its type, and for a pending id without delivery
data a delivery time of `0` and a count of `1`.

A key restored with an unknown type code is written with that code and read as a string, so

    Returns env1 env2 s s0 ↔ every key of s live at env2.now has one of the six types
        (returns_iff)
-/

namespace Kv

open Codec

variable {F : Type}

/-! ## What a snapshot keeps -/

def StreamConsumerState.saved (c : StreamConsumerState) : StreamConsumerState :=
  { c with
    pendingMeta := Std.ExtTreeMap.ofList
      (c.pending.map fun id =>
        (id, c.pendingMeta[id]?.getD { deliveryMs := 0, deliveryCount := 1 })) compare }

def StreamGroupState.saved (g : StreamGroupState) : StreamGroupState :=
  { g with consumers := g.consumers.map fun _ c => c.saved }

/-- The value with the fields of other types cleared and the delivery data filled in. -/
def Obj.saved (o : Obj F) : Obj F :=
  { o.norm with streamGroups := o.norm.streamGroups.map fun _ g => g.saved }

def Item.saved (o : Item F) : Item F := { o.toObj.saved with expireAtMs := o.expireAtMs }

/-- What is loaded of a value: an unknown type becomes a string. -/
def Obj.loaded (o : Obj F) : Obj F := { o.saved with type := o.type.known }

/-- A length or count that the format can hold. -/
def Small (s : Bytes) : Prop := s.length < 2 ^ 32

structure StreamConsumerState.Fits (c : StreamConsumerState) : Prop where
  lastId : Small c.lastId
  count : c.pending.length < 2 ^ 32
  ids : ∀ id ∈ c.pending, Small id
  times : ∀ (id : Bytes) info, c.pendingMeta[id]? = some info →
    IsI64 info.deliveryMs ∧ IsI64 info.deliveryCount

structure StreamGroupState.Fits (g : StreamGroupState) : Prop where
  lastId : Small g.lastId
  count : g.consumers.size < 2 ^ 32
  consumers : ∀ (name : Bytes) c, g.consumers[name]? = some c → Small name ∧ c.Fits

def SmallPairs (m : BMap Bytes) : Prop :=
  m.size < 2 ^ 32 ∧ ∀ (k : Bytes) v, m[k]? = some v → Small k ∧ Small v

/-- A `double` is eight bytes in memory, and comes back from them. -/
def IsDouble [Platform F] (x : F) : Prop :=
  (Platform.toBytes x).length = 8 ∧ Platform.ofBytes (Platform.toBytes x) = x

/-- The lengths, counts and numbers of an entry are those of the C++ types and below `2 ^ 32`. -/
structure Obj.Fits [Platform F] (o : Obj F) : Prop where
  /-- `other` stands for codes that none of the six types has. -/
  type : ObjType.ofCode o.type.code = o.type
  value : Small o.value
  hash : SmallPairs o.hash
  list : o.list.length < 2 ^ 32 ∧ ∀ x ∈ o.list, Small x
  set : o.set.size < 2 ^ 32 ∧ ∀ x ∈ o.set, Small x
  zset : o.zset.size < 2 ^ 32 ∧ ∀ (m : Bytes) x, o.zset[m]? = some x → Small m ∧ IsDouble x
  stream : o.stream.length < 2 ^ 32 ∧ ∀ x ∈ o.stream, Small x.id ∧ SmallPairs x.fields
  lastMs : o.streamLastMs < 2 ^ 64
  lastSeq : o.streamLastSeq < 2 ^ 64
  groups : o.streamGroups.size < 2 ^ 32 ∧
    ∀ (name : Bytes) g, o.streamGroups[name]? = some g → Small name ∧ g.Fits

/-! ## Containers -/

section
variable {V : Type} {order : List Bytes → List Bytes} (horder : ∀ l, (order l).Perm l)

include horder

theorem mem_listed {m : BMap V} {k : Bytes} {v : V} : (k, v) ∈ m.listed order ↔ m[k]? = some v := by
  unfold BMap.listed
  rw [List.mem_filterMap]
  constructor
  · rintro ⟨key, -, hk⟩
    obtain ⟨w, hw, heq⟩ := Option.map_eq_some_iff.mp hk
    cases heq
    exact hw
  · intro hv
    refine ⟨k, ?_, by rw [hv]; rfl⟩
    rw [(horder _).mem_iff, Std.ExtTreeMap.mem_keys]
    exact Std.ExtTreeMap.mem_iff_isSome_getElem?.mpr (by rw [hv]; rfl)

theorem listed_keys (m : BMap V) : (m.listed order).map Prod.fst = order m.keys := by
  unfold BMap.listed
  rw [List.map_filterMap]
  have hall : ∀ key ∈ order m.keys, ((m[key]?.map fun v => (key, v)).map Prod.fst) = some key := by
    intro key hk
    rw [(horder _).mem_iff, Std.ExtTreeMap.mem_keys] at hk
    obtain ⟨v, hv⟩ := Option.isSome_iff_exists.mp (Std.ExtTreeMap.mem_iff_isSome_getElem?.mp hk)
    rw [hv]
    rfl
  rw [List.filterMap_congr hall, List.filterMap_some]

theorem listed_length (m : BMap V) : (m.listed order).length = m.size := by
  rw [← List.length_map Prod.fst, listed_keys horder, (horder _).length_eq,
    Std.ExtTreeMap.length_keys]

/-- A map is read back from its listing, item by item. -/
theorem ofList_listed {W : Type} (m : BMap V) (f : V → W) :
    Std.ExtTreeMap.ofList ((m.listed order).map fun e => (e.1, f e.2)) compare =
      m.map fun _ v => f v := by
  have hkeys : ((m.listed order).map fun e => (e.1, f e.2)).map Prod.fst = order m.keys := by
    rw [List.map_map, ← listed_keys horder]
    rfl
  have hdistinct : ((m.listed order).map fun e => (e.1, f e.2)).Pairwise
      fun a b => ¬compare a.1 b.1 = .eq := by
    have hp : (order m.keys).Pairwise fun a b => ¬compare a b = .eq :=
      (horder _).symm.pairwise m.distinct_keys fun h hc => h (Std.OrientedCmp.eq_symm hc)
    rw [← hkeys] at hp
    exact List.pairwise_map.mp hp
  apply Std.ExtTreeMap.ext_getElem?
  intro k
  rw [Std.ExtTreeMap.getElem?_map]
  cases hv : m[k]? with
  | some v =>
    have hm : (k, f v) ∈ (m.listed order).map fun e => (e.1, f e.2) :=
      List.mem_map.mpr ⟨(k, v), (mem_listed horder).mpr hv, rfl⟩
    rw [Std.ExtTreeMap.getElem?_ofList_of_mem Std.ReflCmp.compare_self hdistinct hm]
    rfl
  | none =>
    rw [Std.ExtTreeMap.getElem?_ofList_of_contains_eq_false]
    · rfl
    · rw [hkeys, List.contains_eq_mem, decide_eq_false_iff_not, (horder _).mem_iff,
        Std.ExtTreeMap.mem_keys]
      intro hmem
      rw [Std.ExtTreeMap.mem_iff_isSome_getElem?, hv] at hmem
      cases hmem

end

/-! ## Entries -/

theorem parses_str {s : Bytes} (h : Small s) : Parses readStr (appendStr s) s :=
  parses_readStr.mpr ⟨h, rfl⟩

theorem parses_pair {f : Bytes × Bytes} (hk : Small f.1) (hv : Small f.2) :
    Parses readPair (appendPair f) f :=
  (parses_str hk).bind ((parses_str hv).bind_pure fun v => (f.1, v))

theorem parses_all {α β : Type} {r : RdbReader α} {enc : β → Bytes} {dec : β → α} {bs : List β}
    (hn : bs.length < 2 ^ 32) (h : ∀ b ∈ bs, Parses r (enc b) (dec b)) :
    Parses (readAll r) (appendAll enc bs) (bs.map dec) := by
  refine Parses.bind (parses_readU32.mpr ⟨hn, rfl⟩) (.many ?_)
  rw [List.forall₂_map_right_iff, List.forall₂_same]
  exact h

theorem parses_items {α : Type} {r : RdbReader α} {enc : α → Bytes} {bs : List α}
    (hn : bs.length < 2 ^ 32) (h : ∀ b ∈ bs, Parses r (enc b) b) :
    Parses (readAll r) (appendAll enc bs) bs := by
  have hall : Parses (readAll r) (appendAll enc bs) (bs.map id) := parses_all hn h
  rwa [List.map_id] at hall

theorem parses_pending {c : StreamConsumerState} (hc : c.Fits) {id : Bytes} (h : id ∈ c.pending) :
    Parses readPending (appendPending c id)
      (id, c.pendingMeta[id]?.getD { deliveryMs := 0, deliveryCount := 1 }) := by
  have htimes : ∀ info, c.pendingMeta[id]?.getD { deliveryMs := 0, deliveryCount := 1 } = info →
      IsI64 info.deliveryMs ∧ IsI64 info.deliveryCount := by
    rintro info rfl
    cases hm : c.pendingMeta[id]? with
    | none =>
      show IsI64 0 ∧ IsI64 1
      unfold IsI64
      omega
    | some info => exact hc.times id info hm
  obtain ⟨hms, hcount⟩ := htimes _ rfl
  refine (parses_str (hc.ids id h)).bind ?_
  refine (parses_readI64.mpr ⟨hms, rfl⟩).bind ?_
  exact (parses_readI64.mpr ⟨hcount, rfl⟩).bind_pure _

theorem parses_consumer {name : Bytes} {c : StreamConsumerState} (hn : Small name) (hc : c.Fits) :
    Parses readConsumer (appendConsumer (name, c)) (name, c.saved) := by
  have hpending := parses_all hc.count fun id h => parses_pending hc h
  refine (parses_str hn).bind ((parses_str hc.lastId).bind ?_)
  have hids : c.pending = (c.pending.map fun id =>
      (id, c.pendingMeta[id]?.getD { deliveryMs := 0, deliveryCount := 1 })).map Prod.fst := by
    rw [List.map_map]
    exact (List.map_id _).symm
  rw [show c.saved = { lastId := c.lastId, pending := _, pendingMeta := _ } from
    congrArg (fun l => { c.saved with pending := l }) hids]
  exact hpending.bind_pure _

section
variable {order : List Bytes → List Bytes} (horder : ∀ l, (order l).Perm l)

include horder

theorem parses_map {V W : Type} {r : RdbReader (Bytes × W)} {enc : Bytes × V → Bytes} {f : V → W}
    {m : BMap V} (hn : m.size < 2 ^ 32)
    (h : ∀ k v, m[k]? = some v → Parses r (enc (k, v)) (k, f v)) :
    Parses (readMap r) (appendAll enc (m.listed order)) (m.map fun _ v => f v) := by
  have hlen : (m.listed order).length < 2 ^ 32 := by rwa [listed_length horder]
  have hall : Parses (readAll r) (appendAll enc (m.listed order))
      ((m.listed order).map fun e => (e.1, f e.2)) :=
    parses_all hlen fun e he => h e.1 e.2 ((mem_listed horder).mp he)
  have hb := hall.bind_pure fun l => Std.ExtTreeMap.ofList l compare
  rwa [ofList_listed horder] at hb

theorem parses_entries {V : Type} {r : RdbReader (Bytes × V)} {enc : Bytes × V → Bytes} {m : BMap V}
    (hn : m.size < 2 ^ 32) (h : ∀ k v, m[k]? = some v → Parses r (enc (k, v)) (k, v)) :
    Parses (readMap r) (appendAll enc (m.listed order)) m := by
  have hm : Parses (readMap r) (appendAll enc (m.listed order)) (m.map fun _ v => id v) :=
    parses_map horder hn h
  have hid : (m.map fun _ v => id v) = m := by
    apply Std.ExtTreeMap.ext_getElem?
    intro k
    rw [Std.ExtTreeMap.getElem?_map]
    exact Option.map_id_apply
  rwa [hid] at hm

theorem parses_pairs {m : BMap Bytes} (h : SmallPairs m) :
    Parses (readMap readPair) (appendAll appendPair (m.listed order)) m :=
  parses_entries horder h.1 fun k v hv => parses_pair (h.2 k v hv).1 (h.2 k v hv).2

theorem parses_group {name : Bytes} {g : StreamGroupState} (hn : Small name) (hg : g.Fits) :
    Parses readGroupState (appendGroup order (name, g)) (name, g.saved) := by
  have hc := parses_map horder hg.count fun k c hc =>
    parses_consumer (hg.consumers k c hc).1 (hg.consumers k c hc).2
  refine (parses_str hn).bind ((parses_str hg.lastId).bind ?_)
  exact hc.bind_pure _

theorem parses_streamItem {e : StreamEntry} (hid : Small e.id) (hf : SmallPairs e.fields) :
    Parses readStreamItem (appendStreamItem order e) e :=
  (parses_str hid).bind ((parses_pairs horder hf).bind_pure _)

variable [Platform F]

theorem parses_stream {o : Obj F} (h : o.Fits) :
    Parses (readStreamEntry : RdbReader (Obj F)) (writeStreamEntry order o)
      { type := .stream, stream := o.stream, streamLastMs := o.streamLastMs,
        streamLastSeq := o.streamLastSeq, streamGroups := o.streamGroups.map fun _ g => g.saved } := by
  have hitems := parses_items h.stream.1 fun e he =>
    parses_streamItem horder (h.stream.2 e he).1 (h.stream.2 e he).2
  have hgroups := parses_map horder h.groups.1 fun name g hg =>
    parses_group horder (h.groups.2 name g hg).1 (h.groups.2 name g hg).2
  refine (parses_readU64.mpr ⟨h.lastMs, rfl⟩).bind ((parses_readU64.mpr ⟨h.lastSeq, rfl⟩).bind ?_)
  exact (parses_readReserved.mpr hitems).bind (hgroups.bind_pure _)

omit [Platform F] in
theorem parses_set {m : BSet} (hn : m.size < 2 ^ 32) (h : ∀ x ∈ m, Small x) :
    Parses (readAll readStr >>= fun l => pure ({ type := .set, set := Std.ExtTreeSet.ofList l compare } : Obj F))
      (appendAll appendStr (order m.toList)) { type := .set, set := m } := by
  have hlen : (order m.toList).length < 2 ^ 32 := by
    rwa [(horder _).length_eq, Std.ExtTreeSet.length_toList]
  have hitems := parses_items hlen fun x hx =>
    parses_str (h x (Std.ExtTreeSet.mem_toList.mp ((horder _).mem_iff.mp hx)))
  have hset : Std.ExtTreeSet.ofList (order m.toList) compare = m := by
    apply Std.ExtTreeSet.ext_mem
    intro x
    rw [Std.ExtTreeSet.mem_ofList, List.contains_iff_mem, (horder _).mem_iff,
      Std.ExtTreeSet.mem_toList]
  have hb := hitems.bind_pure fun l =>
    ({ type := .set, set := Std.ExtTreeSet.ofList l compare } : Obj F)
  rwa [hset] at hb

omit horder in
theorem parses_score {m : Bytes} {x : F} (hm : Small m) (hx : IsDouble x) :
    Parses readScore (appendStr m ++ Platform.toBytes x) (m, x) := by
  have ht : Parses (take 8 (.text []) : RdbReader Bytes) (Platform.toBytes x) (Platform.toBytes x) :=
    Sound.parses_take.mpr ⟨rfl, hx.1⟩
  have hb : Parses readScore (appendStr m ++ Platform.toBytes x)
      (m, (Platform.ofBytes (Platform.toBytes x) : F)) := (parses_str hm).bind (ht.bind_pure _)
  rwa [hx.2] at hb

theorem parses_payload {o : Obj F} (h : o.Fits) :
    Parses (readEntryPayload o.type.known) (writeEntryPayload order o) o.loaded := by
  obtain ⟨t, value, hash, list, set, zset, stream, lastMs, lastSeq, groups⟩ := o
  cases t with
  | string => exact (parses_str h.value).bind_pure _
  | hash => exact (parses_pairs horder h.hash).bind_pure _
  | list => exact (parses_items h.list.1 fun x hx => parses_str (h.list.2 x hx)).bind_pure _
  | set => exact parses_set horder h.set.1 h.set.2
  | zset =>
    have hz : Parses (readMap readScore) (appendAll (fun z => appendStr z.1 ++ Platform.toBytes z.2)
        (zset.listed order)) zset := parses_entries horder h.zset.1 fun k v hv =>
      parses_score (h.zset.2 k v hv).1 (h.zset.2 k v hv).2
    exact hz.bind_pure _
  | stream => exact parses_stream horder h
  | other c => exact (parses_str h.value).bind_pure _

end

/-! ## The entries of a snapshot -/

/-- A snapshot has `o` under `key` in database `db`. -/
def Snapped (snap : List (Int × List (Bytes × Item F))) (db : Int) (key : Bytes) (o : Item F) : Prop :=
  ∃ d ∈ snap, d.1 = db ∧ (key, o) ∈ d.2

variable {snap : List (Int × List (Bytes × Item F))} {key : Bytes} {o : Item F}

theorem snapped_addSnapshot {db db' : Int}
    {entries : List (Bytes × Item F)} :
    Snapped (addSnapshot snap db entries) db' key o ↔
      Snapped snap db' key o ∨ db' = db ∧ (key, o) ∈ entries := by
  unfold addSnapshot
  by_cases hany : snap.any (·.1 == db)
  · rw [if_pos hany]
    constructor
    · rintro ⟨d, hd, rfl, hk⟩
      obtain ⟨d0, hd0, rfl⟩ := List.mem_map.mp hd
      by_cases hdb : d0.1 = db
      · rw [if_pos hdb] at hk ⊢
        rcases List.mem_append.mp hk with hk | hk
        · exact .inl ⟨d0, hd0, hdb, hk⟩
        · exact .inr ⟨rfl, hk⟩
      · rw [if_neg hdb] at hk ⊢
        exact .inl ⟨d0, hd0, rfl, hk⟩
    · rintro (⟨d, hd, rfl, hk⟩ | ⟨rfl, hk⟩)
      · refine ⟨_, List.mem_map.mpr ⟨d, hd, rfl⟩, ?_⟩
        by_cases hdb : d.1 = db
        · rw [if_pos hdb]
          exact ⟨hdb.symm, List.mem_append_left _ hk⟩
        · rw [if_neg hdb]
          exact ⟨rfl, hk⟩
      · obtain ⟨d, hd, heq⟩ := List.any_eq_true.mp hany
        rw [beq_iff_eq] at heq
        refine ⟨_, List.mem_map.mpr ⟨d, hd, rfl⟩, ?_⟩
        rw [if_pos heq]
        exact ⟨rfl, List.mem_append_right _ hk⟩
  · rw [if_neg hany]
    by_cases hempty : entries.isEmpty
    · rw [if_pos hempty, List.isEmpty_iff.mp hempty]
      simp
    · rw [if_neg hempty]
      unfold Snapped
      simp only [List.mem_append, List.mem_singleton, or_and_right, exists_or, exists_eq_left]
      simp only [eq_comm]

variable {db : Int}

theorem snapped_foldl {β : Type} {f : β → Int} {g : β → List (Bytes × Item F)} {xs : List β} :
    Snapped (xs.foldl (fun snap x => addSnapshot snap (f x) (g x)) snap) db key o ↔
      Snapped snap db key o ∨ ∃ x ∈ xs, db = f x ∧ (key, o) ∈ g x := by
  induction xs generalizing snap with
  | nil => simp
  | cons x xs ih =>
    rw [List.foldl_cons, ih, snapped_addSnapshot, or_assoc]
    simp

theorem mem_unexpired {env : Env} {m : DbMap F} :
    (key, o) ∈ DbMap.unexpired env m ↔ m[key]?.map Entry.toItem = some o ∧ o.expired env.now = false := by
  unfold DbMap.unexpired
  rw [List.mem_map]
  constructor
  · rintro ⟨e, he, heq⟩
    obtain ⟨he, hx⟩ := List.mem_filter.mp he
    rw [Prod.mk.injEq] at heq
    obtain ⟨rfl, rfl⟩ := heq
    rw [(mem_listed env.order_perm).mp he]
    exact ⟨rfl, by simpa using hx⟩
  · rintro ⟨hm, hx⟩
    obtain ⟨e, he, rfl⟩ := Option.map_eq_some_iff.mp hm
    refine ⟨(key, e), List.mem_filter.mpr ⟨(mem_listed env.order_perm).mpr he, ?_⟩, rfl⟩
    simpa using hx

variable [Platform F] {s : KvStore F}

namespace KvStore

theorem live_eq_some_iff {now : Int} :
    s.live now db key = some o ↔ s.item db key = some o ∧ o.expired now = false := by
  unfold live
  rw [Option.filter_eq_some_iff]
  simp

theorem snapped_snapshot {env : Env} :
    Snapped (s.snapshot env) db key o ↔ s.live env.now db key = some o := by
  unfold snapshot
  rw [← List.foldl_flatMap, snapped_foldl, live_eq_some_iff]
  constructor
  · rintro (⟨_, hd, _⟩ | ⟨x, hx, rfl, hk⟩)
    · cases hd
    · obtain ⟨i, -, hx⟩ := List.mem_flatMap.mp hx
      obtain ⟨hm, hex⟩ := mem_unexpired.mp hk
      refine ⟨?_, hex⟩
      have hl : (s.shards i).dbs.lookup x.1 = some x.2 := AList.mem_lookup_iff.mpr hx
      obtain ⟨e, he, -⟩ := Option.map_eq_some_iff.mp hm
      have hkey : key ∈ x.2 := Std.ExtTreeMap.mem_iff_isSome_getElem?.mpr (by rw [he]; rfl)
      rw [item, entry, dbMap, s.placed i x.1 x.2 key hl hkey, hl]
      exact hm
  · rintro ⟨hitem, hex⟩
    obtain ⟨e, he, rfl⟩ := Option.map_eq_some_iff.mp hitem
    obtain ⟨m, hm, hk⟩ := Option.bind_eq_some_iff.mp he
    refine .inr ⟨⟨db, m⟩, ?_, rfl, mem_unexpired.mpr ⟨by rw [hk]; rfl, hex⟩⟩
    exact List.mem_flatMap.mpr ⟨shardIdx F key, List.mem_finRange _, AList.mem_lookup_iff.mp hm⟩

/-- Lengths, counts and numbers of what a snapshot of the store holds. -/
structure Fits (env : Env) (s : KvStore F) : Prop where
  dbs : (s.snapshot env).length < 2 ^ 32
  counts : ∀ d ∈ s.snapshot env, d.2.length < 2 ^ 32
  /-- A database number is an `int`. -/
  number : ∀ d ∈ s.snapshot env, -2 ^ 31 ≤ d.1 ∧ d.1 < 2 ^ 31
  key : ∀ db key o, s.live env.now db key = some o → Small key
  deadline : ∀ db key o, s.live env.now db key = some o → IsI64 o.expireAtMs
  value : ∀ db key o, s.live env.now db key = some o → o.toObj.Fits

end KvStore

/-! ## Top theorem -/

/-- A snapshot of `s` taken at `env1` and loaded over `s0` at `env2` brings back the entries that are
unexpired at both times. -/
structure Returns (env1 env2 : Env) (s s0 : KvStore F) : Prop where
  loads : (KvStore.loadBinaryV2 (dumpBinaryV2 env1 s) env2 s0).1 = .ok ()
  item : ∀ db key, (KvStore.loadBinaryV2 (dumpBinaryV2 env1 s) env2 s0).2.item db key =
    ((s.item db key).filter fun o => !o.expired env1.now && !o.expired env2.now).map Item.saved

def rawEntry (order : List Bytes → List Bytes) (e : Bytes × Item F) : RawEntry where
  key := e.1
  deadline := e.2.expireAtMs
  code := e.2.type.code
  payload := writeEntryPayload order e.2.toObj

/-- The file a snapshot is. -/
def rawFile (env : Env) (s : KvStore F) : RawFile where
  savedAt := (env.now % 2 ^ 64).toNat
  dbs := (s.snapshot env).map fun d => { number := d.1, entries := d.2.map (rawEntry env.order) }

theorem dumpBinaryV2_eq (env : Env) (s : KvStore F) : dumpBinaryV2 env s = (rawFile env s).bytes := by
  have hdb : appendDb (F := F) env.order = fun d =>
      RawDb.bytes { number := d.1, entries := d.2.map (rawEntry env.order) } := by
    funext d
    unfold appendDb RawDb.bytes appendAll
    rw [List.length_map, List.flatMap_map]
    rfl
  unfold dumpBinaryV2 RawFile.bytes rawFile appendAll
  rw [List.length_map, List.flatMap_map, hdb]

/-- What is loaded of an item. -/
def Item.loaded (o : Item F) : Item F := { o.toObj.loaded with expireAtMs := o.expireAtMs }

/-- What a load at `now` reads of a snapshot. -/
def loadedDbs (now : Int) (snap : List (Int × List (Bytes × Item F))) :
    List (ReadDb F) :=
  snap.map fun d => (d.1, d.2.map fun e => (e.1, if e.2.expired now then none else some e.2.loaded))

theorem rawEntry_loads {order : List Bytes → List Bytes}
    (horder : ∀ l, (order l).Perm l) {e : Bytes × Item F} (hk : Small e.1) (hd : IsI64 e.2.expireAtMs)
    (hv : e.2.toObj.Fits) (now : Int) : (rawEntry order e).Loads now
      (e.1, if e.2.expired now then none else some e.2.loaded) := by
  refine ⟨rfl, e.2.toObj.loaded, ⟨hk, hd, ?_⟩, ?_⟩
  · show Parses (readEntryPayload (ObjType.ofCode e.2.type.code).known) _ _
    rw [hv.type]
    exact parses_payload horder hv
  · have hex : (rawEntry order e).Expired now ↔ e.2.expired now = true := by
      unfold RawEntry.Expired Item.expired
      rw [Bool.and_eq_true, decide_eq_true_iff, decide_eq_true_iff]
      rfl
    simp only [hex]
    rfl

theorem rawFile_loads {env : Env} (h : s.Fits env) (now : Int) :
    (rawFile env s).Loads now (loadedDbs now (s.snapshot env)) := by
  refine ⟨?_, ?_, ?_⟩
  · show (env.now % 2 ^ 64).toNat < 2 ^ 64
    omega
  · show ((s.snapshot env).map _).length < 2 ^ 32
    rw [List.length_map]
    exact h.dbs
  · unfold rawFile loadedDbs
    rw [List.forall₂_map_left_iff, List.forall₂_map_right_iff, List.forall₂_same]
    intro d hd
    have hn := h.number d hd
    refine ⟨?_, (i32_of_range hn).symm, ?_, ?_⟩
    · show -2 ^ 63 ≤ d.1 ∧ d.1 < 2 ^ 63
      omega
    · show (d.2.map _).length < 2 ^ 32
      rw [List.length_map]
      exact h.counts d hd
    · rw [List.forall₂_map_left_iff, List.forall₂_map_right_iff, List.forall₂_same]
      intro e he
      have hl : s.live env.now d.1 e.1 = some e.2 := KvStore.snapped_snapshot.mp ⟨d, hd, rfl, he⟩
      exact rawEntry_loads env.order_perm (h.key _ _ _ hl) (h.deadline _ _ _ hl)
        (h.value _ _ _ hl) now

omit [Platform F] in
theorem mem_rebuilt_loadedDbs {now : Int} {o' : Item F} : (db, key, o') ∈ rebuilt (loadedDbs now snap) ↔
      ∃ o, Snapped snap db key o ∧ o.expired now = false ∧ o' = o.loaded := by
  unfold rebuilt loadedDbs
  rw [List.flatMap_map, List.mem_flatMap]
  constructor
  · rintro ⟨d, hd, hm⟩
    obtain ⟨y, hy, heq⟩ := List.mem_filterMap.mp hm
    obtain ⟨e, he, rfl⟩ := List.mem_map.mp hy
    by_cases hex : e.2.expired now
    · rw [if_pos hex] at heq
      cases heq
    · rw [if_neg hex] at heq
      cases heq
      exact ⟨e.2, ⟨d, hd, rfl, he⟩, Bool.eq_false_iff.mpr hex, rfl⟩
  · rintro ⟨o, ⟨d, hd, rfl, he⟩, hex, rfl⟩
    refine ⟨d, hd, List.mem_filterMap.mpr ⟨_, List.mem_map.mpr ⟨(key, o), he, rfl⟩, ?_⟩⟩
    rw [if_neg (Bool.eq_false_iff.mp hex)]
    rfl

omit [Platform F] in
theorem Item.loaded_eq_saved (h : o.type.Valid) : o.loaded = o.saved := by
  have ht : o.type.known = o.toObj.saved.type := by
    show _ = o.toObj.norm.type
    rw [Obj.norm_type]
    cases ht : o.type with
    | other c => exact absurd ht (h c)
    | _ => rfl
  unfold loaded saved Obj.loaded
  rw [ht]

theorem loadBinaryV2_dump {env1 : Env} (h : s.Fits env1) (env2 : Env) (s0 : KvStore F) :
    KvStore.loadBinaryV2 (dumpBinaryV2 env1 s) env2 s0 =
      (.ok (), s0.install (rebuilt (loadedDbs env2.now (s.snapshot env1)))) := by
  have hread : readV2 env2.now (dumpBinaryV2 env1 s) =
      .ok (loadedDbs env2.now (s.snapshot env1), []) := by
    refine readV2_iff.mpr ⟨rawFile env1 s, rawFile_loads h env2.now, ?_⟩
    rw [dumpBinaryV2_eq, List.append_nil]
  rw [KvStore.loadBinaryV2, hread]

theorem item_loadBinaryV2_dump {env1 : Env} (h : s.Fits env1) (env2 : Env)
    (s0 : KvStore F) (db : Int) (key : Bytes) :
    (KvStore.loadBinaryV2 (dumpBinaryV2 env1 s) env2 s0).2.item db key =
      ((s.item db key).filter fun o => !o.expired env1.now && !o.expired env2.now).map Item.loaded := by
  rw [loadBinaryV2_dump h]
  have hmem : ∀ o', (db, key, o') ∈ rebuilt (loadedDbs env2.now (s.snapshot env1)) ↔
      ((s.item db key).filter fun o => !o.expired env1.now && !o.expired env2.now).map Item.loaded =
        some o' := by
    intro o'
    rw [mem_rebuilt_loadedDbs, Option.map_eq_some_iff]
    simp only [KvStore.snapped_snapshot, KvStore.live_eq_some_iff, Option.filter_eq_some_iff,
      Bool.and_eq_true, Bool.not_eq_true']
    constructor
    · rintro ⟨o, ⟨hi, h1⟩, h2, rfl⟩
      exact ⟨o, ⟨hi, h1, h2⟩, rfl⟩
    · rintro ⟨o, ⟨hi, h1, h2⟩, rfl⟩
      exact ⟨o, ⟨hi, h1⟩, h2, rfl⟩
  unfold KvStore.item
  cases he : (s0.install (rebuilt (loadedDbs env2.now (s.snapshot env1)))).entry db key with
  | some e => exact ((hmem _).mp (KvStore.mem_of_entry_install he)).symm
  | none =>
    symm
    rw [Option.map_none, Option.eq_none_iff_forall_not_mem]
    intro o' ho'
    have hsome := KvStore.entry_foldl_put_isSome (s := s0.cleared)
      (.inr ⟨o', (hmem o').mpr (Option.mem_def.mp ho')⟩)
    change ((s0.install _).entry db key).isSome at hsome
    rw [he] at hsome
    cases hsome

/-- A snapshot comes back exactly when the entries it brings back have one of the six types. -/
theorem returns_iff (env1 env2 : Env) (s s0 : KvStore F) (h : s.Fits env1) :
    Returns env1 env2 s s0 ↔ ∀ db key o, s.live env1.now db key = some o →
      o.expired env2.now = false → o.type.Valid := by
  constructor
  · intro hr db key o hl hex c ht
    obtain ⟨hi, hex1⟩ := KvStore.live_eq_some_iff.mp hl
    have hitem := hr.item db key
    rw [item_loadBinaryV2_dump h, hi] at hitem
    simp only [Option.filter_some, hex, hex1, Bool.not_false, Bool.and_self, if_true, Option.map_some,
      Option.some.injEq] at hitem
    have hty : o.type.known = o.toObj.norm.type := congrArg (fun x : Item F => x.type) hitem
    rw [Obj.norm_type, ht] at hty
    cases hty
  · intro hvalid
    refine ⟨by rw [loadBinaryV2_dump h], fun db key => ?_⟩
    rw [item_loadBinaryV2_dump h]
    cases hi : s.item db key with
    | none => rfl
    | some o =>
      by_cases hex : (!o.expired env1.now && !o.expired env2.now) = true
      · rw [Option.filter_some, if_pos hex, Option.map_some, Option.map_some]
        rw [Bool.and_eq_true, Bool.not_eq_true', Bool.not_eq_true'] at hex
        have hl := KvStore.live_eq_some_iff.mpr ⟨hi, hex.1⟩
        rw [Item.loaded_eq_saved (hvalid db key o hl hex.2)]
      · rw [Option.filter_some, if_neg hex]
        rfl

/-- A store with one key. -/
def holding (db : Int) (key : Bytes) (o : Item F) : KvStore F :=
  KvStore.empty.putEntry db key (some { o with })

theorem item_holding {db db' : Int} {key key' : Bytes} {o o' : Item F}
    (h : (holding db key o).item db' key' = some o') : db' = db ∧ key' = key ∧ o' = o := by
  rw [KvStore.item, holding, KvStore.entry_putEntry] at h
  by_cases hk : db' = db ∧ key' = key
  · rw [if_pos hk, Option.map_some, Option.some.injEq] at h
    exact ⟨hk.1, hk.2, h.symm⟩
  · rw [if_neg hk] at h
    cases h

theorem live_holding {now db db' : Int} {key key' : Bytes} {o o' : Item F}
    (h : (holding db key o).live now db' key' = some o') : db' = db ∧ key' = key ∧ o' = o :=
  item_holding (KvStore.live_eq_some_iff.mp h).1

theorem fits_entry {t : ObjType} {v : Bytes} {stream : List StreamEntry} {ms seq : Nat}
    (ht : ObjType.ofCode t.code = t) (hv : Small v)
    (hstream : stream.length < 2 ^ 32 ∧ ∀ x ∈ stream, Small x.id ∧ SmallPairs x.fields) (hms : ms < 2 ^ 64)
    (hseq : seq < 2 ^ 64) :
    ({ type := t, value := v, stream := stream, streamLastMs := ms, streamLastSeq := seq } : Obj F).Fits where
  type := ht
  value := hv
  hash := ⟨by simp, fun k v h => by simp at h⟩
  list := ⟨by simp, fun x hx => by cases hx⟩
  set := ⟨by simp, fun x hx => absurd hx Std.ExtTreeSet.not_mem_empty⟩
  zset := ⟨by simp, fun m x h => by simp at h⟩
  stream := hstream
  lastMs := hms
  lastSeq := hseq
  groups := ⟨by simp, fun m x h => by simp at h⟩

theorem fits_string {v : Bytes} (h : Small v) : ({ value := v } : Obj F).Fits :=
  fits_entry rfl h ⟨by simp, fun x hx => by cases hx⟩ (by simp) (by simp)

/-- A stream of one entry. -/
def streamOfOne : Item Int where
  type := .stream
  stream := [⟨lit "1-1", ({} : BMap Bytes).insert (lit "f") (lit "x")⟩]
  streamLastMs := 1
  streamLastSeq := 1

/-- A string with a deadline, and a stream. -/
def mixedKeys : KvStore Int :=
  (holding 2 (lit "k") { value := lit "v", expireAtMs := 90 }).putEntry 0 (lit "s") (some { streamOfOne with })

theorem live_mixedKeys {now db : Int} {key : Bytes} {o : Item Int} (h : mixedKeys.live now db key = some o) :
    key = lit "s" ∧ o = streamOfOne ∨ key = lit "k" ∧ o = { value := lit "v", expireAtMs := 90 } := by
  have hitem : (mixedKeys.entry db key).map Entry.toItem = some o := (KvStore.live_eq_some_iff.mp h).1
  rw [mixedKeys, KvStore.entry_putEntry] at hitem
  by_cases hk : db = 0 ∧ key = lit "s"
  · rw [if_pos hk, Option.map_some, Option.some.injEq] at hitem
    exact .inl ⟨hk.2, hitem.symm⟩
  · rw [if_neg hk] at hitem
    exact .inr (item_holding hitem).2

theorem fits_mixedKeys : mixedKeys.Fits { now := 10 } where
  dbs := by decide
  counts := by decide
  number := by decide
  key _ _ _ h := by
    have hlength : (lit "s").length < 2 ^ 32 ∧ (lit "k").length < 2 ^ 32 := by decide
    obtain ⟨rfl, -⟩ | ⟨rfl, -⟩ := live_mixedKeys h
    · exact hlength.1
    · exact hlength.2
  deadline _ _ _ h := by
    have hrange : (-2 ^ 63 ≤ (0 : Int) ∧ (0 : Int) < 2 ^ 63) ∧ -2 ^ 63 ≤ (90 : Int) ∧ (90 : Int) < 2 ^ 63 := by decide
    obtain ⟨-, rfl⟩ | ⟨-, rfl⟩ := live_mixedKeys h
    · exact hrange.1
    · exact hrange.2
  value _ _ _ h := by
    obtain ⟨-, rfl⟩ | ⟨-, rfl⟩ := live_mixedKeys h
    · refine fits_entry rfl (by show ([] : Bytes).length < 2 ^ 32; decide) ⟨by decide, fun x hx => ?_⟩ (by decide) (by decide)
      obtain rfl := List.mem_singleton.mp hx
      refine ⟨by show (lit "1-1").length < 2 ^ 32; decide, by decide, fun k v hkv => ?_⟩
      rw [Std.ExtTreeMap.getElem?_insert] at hkv
      split at hkv
      next hk =>
        obtain rfl := Std.LawfulEqCmp.eq_of_compare hk
        cases hkv
        exact ⟨by show (lit "f").length < 2 ^ 32; decide, by show (lit "x").length < 2 ^ 32; decide⟩
      next =>
        simp at hkv
    · exact fits_string (by show (lit "v").length < 2 ^ 32; decide)

theorem returns_iff_string :
    mixedKeys.Fits { now := 10 } ∧ (Returns { now := 10 } { now := 20 } mixedKeys KvStore.empty ↔
      ∀ db key o, mixedKeys.live 10 db key = some o → o.expired 20 = false → o.type.Valid) :=
  ⟨fits_mixedKeys, returns_iff { now := 10 } { now := 20 } _ _ fits_mixedKeys⟩

/-- A RESTORE payload of a type code that no type has. -/
def unknownType : Bytes :=
  KvStore.dumpMagic ++ (appendI64 0 ++ (appendU8 9 ++ appendStr (lit "v")))

/-- The key it leaves comes back as a string. -/
theorem unknown_type_becomes_string :
    ¬Returns { now := 10 } { now := 20 }
      (KvStore.restoreKey 0 (lit "k") 0 unknownType false { now := 10 } (KvStore.empty : KvStore Int)).2
      KvStore.empty := by
  intro h
  have hitem := congrArg (fun o : Option (Item Int) => o.map fun o => o.type) (h.item 0 (lit "k"))
  revert hitem
  decide

end Kv
