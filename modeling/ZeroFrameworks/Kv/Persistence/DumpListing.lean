import ZeroFrameworks.Kv.Persistence.DumpFormat

/-!
# What DUMP writes

`o.Lists v` says that `v` is the value of the entry as the format has it, where each unordered container may be listed
in any order, and `o.Dumps payload` that the payload is a dump of the entry.

    DUMP of a live entry that fits writes a payload with o.Dumps payload   (dumps_dumpKey)
-/

namespace Kv

open Codec

variable {F : Type}

/-! ## Specification -/

/-- The items are the map's, in some order. -/
structure ListsMap {V β : Type} (name : β → Bytes) (R : V → β → Prop) (m : BMap V) (l : List β) : Prop where
  once : (l.map name).Nodup
  each : ∀ x ∈ l, ∃ v, m[name x]? = some v ∧ R v x
  all : ∀ k, k ∈ m → k ∈ l.map name

structure StreamConsumerState.Lists (c : StreamConsumerState) (x : RawConsumer) : Prop where
  lastId : x.lastId = c.lastId
  pending : x.pending = c.pending.map fun id =>
    (id, c.pendingMeta[id]?.getD { deliveryMs := 0, deliveryCount := 1 })

structure StreamGroupState.Lists (g : StreamGroupState) (x : RawGroup) : Prop where
  lastId : x.lastId = g.lastId
  consumers : ListsMap RawConsumer.name StreamConsumerState.Lists g.consumers x.consumers

/-- The pairs of a map of strings. -/
def ListsPairs (m : BMap Bytes) (l : RawPairs) : Prop := ListsMap Prod.fst (fun v p => p.2 = v) m l

structure StreamEntry.Lists (e : StreamEntry) (x : RawItem) : Prop where
  id : x.id = e.id
  fields : ListsPairs e.fields x.fields

section
variable [Platform F]

/-- What the entry holds, with each container in some order; the entry has one of the six types. -/
def Obj.Lists (o : Obj F) : RawValue → Prop
  | .string s => o.type = .string ∧ s = o.value
  | .hash l => o.type = .hash ∧ ListsPairs o.hash l
  | .list l => o.type = .list ∧ l = o.list
  | .set l => o.type = .set ∧ l.Nodup ∧ ∀ x, x ∈ l ↔ x ∈ o.set
  | .zset l => o.type = .zset ∧ ListsMap Prod.fst (fun v z => IsDouble v ∧ z.2 = Platform.toBytes v) o.zset l
  | .stream ms seq items groups =>
    o.type = .stream ∧ ms = o.streamLastMs ∧ seq = o.streamLastSeq ∧ List.Forall₂ StreamEntry.Lists o.stream items ∧
      ListsMap RawGroup.name StreamGroupState.Lists o.streamGroups groups

/-- A payload of DUMP for the entry, no count or length of which is cut off. -/
def Item.Dumps (o : Item F) (payload : Bytes) : Prop :=
  ∃ v : RawValue, o.toObj.Lists v ∧ v.Fits ∧ IsI64 o.expireAtMs ∧
    payload = KvStore.dumpMagic ++ (appendI64 o.expireAtMs ++ (appendU8 o.type.code ++ v.bytes))

end

/-! ## Lemmas -/

theorem appendAll_map {α β : Type} (f : β → Bytes) (g : α → β) (xs : List α) :
    appendAll f (xs.map g) = appendAll (fun x => f (g x)) xs := by
  rw [appendAll, appendAll, List.length_map, List.flatMap_map]

/-- A consumer, group, item or entry as `order` lists it. -/
def StreamConsumerState.written (c : Bytes × StreamConsumerState) : RawConsumer :=
  ⟨c.1, c.2.lastId, c.2.pending.map fun id =>
    (id, c.2.pendingMeta[id]?.getD { deliveryMs := 0, deliveryCount := 1 })⟩

def StreamGroupState.written (order : List Bytes → List Bytes) (g : Bytes × StreamGroupState) : RawGroup :=
  ⟨g.1, g.2.lastId, (g.2.consumers.listed order).map StreamConsumerState.written⟩

def StreamEntry.written (order : List Bytes → List Bytes) (e : StreamEntry) : RawItem :=
  ⟨e.id, e.fields.listed order⟩

theorem bytes_consumer : (fun c => (StreamConsumerState.written c).bytes) = appendConsumer := by
  funext c
  rw [RawConsumer.bytes, StreamConsumerState.written, appendAll_map]
  rfl

theorem bytes_group (order : List Bytes → List Bytes) :
    (fun g => (StreamGroupState.written order g).bytes) = appendGroup order := by
  funext g
  rw [RawGroup.bytes, StreamGroupState.written, appendAll_map, bytes_consumer]
  rfl

theorem fits_consumer {name : Bytes} {c : StreamConsumerState} (hn : Small name) (h : c.Fits) :
    (StreamConsumerState.written (name, c)).Fits := by
  refine ⟨hn, h.lastId, by rw [StreamConsumerState.written, List.length_map]; exact h.count, fun p hp => ?_⟩
  obtain ⟨id, hid, rfl⟩ := List.mem_map.mp hp
  refine ⟨h.ids id hid, ?_⟩
  cases hm : c.pendingMeta[id]? with
  | none =>
    show IsI64 0 ∧ IsI64 1
    unfold IsI64
    omega
  | some info => exact h.times id info hm

section
variable {order : List Bytes → List Bytes} (horder : ∀ l, (order l).Perm l)

include horder

theorem listsMap_listed {V β : Type} {name : β → Bytes} {R : V → β → Prop} {m : BMap V} (mk : Bytes × V → β)
    (hname : ∀ e, name (mk e) = e.1) (hR : ∀ k v, m[k]? = some v → R v (mk (k, v))) :
    ListsMap name R m ((m.listed order).map mk) := by
  have hnames : ((m.listed order).map mk).map name = order m.keys := by
    rw [List.map_map, ← listed_keys horder]
    exact List.map_congr_left fun e _ => hname e
  refine ⟨?_, fun x hx => ?_, fun k hk => ?_⟩
  · rw [hnames]
    exact (horder _).nodup_iff.mpr Std.ExtTreeMap.nodup_keys
  · obtain ⟨⟨k, v⟩, he, rfl⟩ := List.mem_map.mp hx
    have hv := (mem_listed horder).mp he
    rw [hname]
    exact ⟨v, hv, hR k v hv⟩
  · rw [hnames, (horder _).mem_iff, Std.ExtTreeMap.mem_keys]
    exact hk

theorem listsPairs_listed (m : BMap Bytes) : ListsPairs m (m.listed order) := by
  have hl := listsMap_listed horder (m := m) (R := fun v p => p.2 = v) id (fun _ => rfl) fun _ _ _ => rfl
  rwa [List.map_id] at hl

theorem fitAll_listed {V β : Type} {ok : β → Prop} {m : BMap V} (hn : m.size < 2 ^ 32) (mk : Bytes × V → β)
    (h : ∀ k v, m[k]? = some v → ok (mk (k, v))) : FitAll ok ((m.listed order).map mk) := by
  refine ⟨by rwa [List.length_map, listed_length horder], fun x hx => ?_⟩
  obtain ⟨⟨k, v⟩, he, rfl⟩ := List.mem_map.mp hx
  exact h k v ((mem_listed horder).mp he)

theorem fitPairs_listed {m : BMap Bytes} (h : SmallPairs m) : FitAll FitPair (m.listed order) := by
  have hfit : FitAll FitPair ((m.listed order).map id) := fitAll_listed horder h.1 id h.2
  rwa [List.map_id] at hfit

theorem fits_group {name : Bytes} {g : StreamGroupState} (hn : Small name) (h : g.Fits) :
    (StreamGroupState.written order (name, g)).Fits :=
  ⟨hn, h.lastId, fitAll_listed horder h.count _ fun k c hc =>
    fits_consumer (h.consumers k c hc).1 (h.consumers k c hc).2⟩

theorem lists_group (name : Bytes) (g : StreamGroupState) : g.Lists (StreamGroupState.written order (name, g)) :=
  ⟨rfl, listsMap_listed horder _ (fun _ => rfl) fun _ _ _ => ⟨rfl, rfl⟩⟩

end

variable [Platform F]

def Obj.written (order : List Bytes → List Bytes) (o : Obj F) : RawValue :=
  match o.type with
  | .hash => .hash (o.hash.listed order)
  | .list => .list o.list
  | .set => .set (order o.set.toList)
  | .zset => .zset ((o.zset.listed order).map fun z => (z.1, Platform.toBytes z.2))
  | .stream => .stream o.streamLastMs o.streamLastSeq (o.stream.map (·.written order))
      ((o.streamGroups.listed order).map (StreamGroupState.written order))
  | .string | .other _ => .string o.value

theorem bytes_written (order : List Bytes → List Bytes) (o : Obj F) :
    (o.written order).bytes = writeEntryPayload order o := by
  unfold Obj.written writeEntryPayload
  cases o.type with
  | zset => exact appendAll_map _ _ _
  | stream =>
    simp only [RawValue.bytes, appendAll_map, bytes_group]
    rfl
  | _ => rfl

theorem lists_written {order : List Bytes → List Bytes} (horder : ∀ l, (order l).Perm l) {o : Obj F}
    (hfits : o.Fits) (ht : o.type.Valid) : o.Lists (o.written order) ∧ (o.written order).Fits := by
  unfold Obj.written
  cases hty : o.type with
  | other c => exact absurd hty (ht c)
  | string => exact ⟨⟨hty, rfl⟩, hfits.value⟩
  | hash => exact ⟨⟨hty, listsPairs_listed horder _⟩, fitPairs_listed horder hfits.hash⟩
  | list => exact ⟨⟨hty, rfl⟩, hfits.list⟩
  | set =>
    have hmem : ∀ x, x ∈ order o.set.toList ↔ x ∈ o.set := fun x => by
      rw [(horder _).mem_iff, Std.ExtTreeSet.mem_toList]
    have honce : o.set.toList.Nodup := Std.ExtTreeSet.distinct_toList.imp Std.ReflCmp.ne_of_cmp_ne_eq
    refine ⟨⟨hty, (horder _).nodup_iff.mpr honce, hmem⟩, ?_, fun x hx => ?_⟩
    · rw [(horder _).length_eq, Std.ExtTreeSet.length_toList]
      exact hfits.set.1
    · exact hfits.set.2 x ((hmem x).mp hx)
  | zset =>
    refine ⟨⟨hty, listsMap_listed horder _ (fun _ => rfl) fun k v hv => ⟨(hfits.zset.2 k v hv).2, rfl⟩⟩, ?_⟩
    exact fitAll_listed horder hfits.zset.1 _ fun k v hv => ⟨(hfits.zset.2 k v hv).1, (hfits.zset.2 k v hv).2.1⟩
  | stream =>
    refine ⟨⟨hty, rfl, rfl, ?_, listsMap_listed horder _ (fun _ => rfl) fun k g _ => lists_group horder k g⟩,
      hfits.lastMs, hfits.lastSeq, ⟨by rw [List.length_map]; exact hfits.stream.1, fun x hx => ?_⟩, ?_⟩
    · rw [List.forall₂_map_right_iff, List.forall₂_same]
      exact fun e _ => ⟨rfl, listsPairs_listed horder _⟩
    · obtain ⟨e, he, rfl⟩ := List.mem_map.mp hx
      exact ⟨(hfits.stream.2 e he).1, fitPairs_listed horder (hfits.stream.2 e he).2⟩
    · exact fitAll_listed horder hfits.groups.1 _ fun k g hg =>
        fits_group horder (hfits.groups.2 k g hg).1 (hfits.groups.2 k g hg).2

theorem dumps_dumpKey {env : Env} {s : KvStore F} {db : Int} {key payload : Bytes} {o : Item F}
    (ho : s.live env.now db key = some o) (hfits : o.toObj.Fits) (ht : o.type.Valid) (hd : IsI64 o.expireAtMs)
    (h : (KvStore.dumpKey db key env s).1 = some payload) : o.Dumps payload := by
  have hpayload : KvStore.dumpMagic ++ (appendI64 o.expireAtMs ++
      (appendU8 o.type.code ++ writeEntryPayload env.order o.toObj)) = payload := by
    change ((s.live env.now db key).map fun o => _) = some payload at h
    rw [ho] at h
    exact Option.some.inj h
  obtain ⟨hlists, hsmall⟩ := lists_written env.order_perm hfits ht
  exact ⟨_, hlists, hsmall, hd, by rw [bytes_written, hpayload]⟩

end Kv
