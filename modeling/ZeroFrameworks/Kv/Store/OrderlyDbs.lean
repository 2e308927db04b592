import Mathlib.Algebra.BigOperators.Group.List.Basic
import ZeroFrameworks.Kv.Store.OrderlyKeys

/-!
# Operations on whole databases are orderly

Listing and counting drop the expired entries of the database first, so what they list is what is
live.  `purgeExpiredActive` drops some expired entries and tells how many, which is the one reply
that shows them (`orderly_purgeExpiredActive` is about everything but this reply).
-/

namespace Kv

variable {F : Type} [Platform F] {α : Type}

/-- A question about what is live, the settings or the counters. -/
theorem Orderly.gets {P : Obj F → Prop} {X : Int → Bytes → Prop} {f : Env → KvStore F → α}
    (hf : ∀ env s t, SameView env.now s t → f env s = f env t) :
    Orderly P X 0 (fun env s => (f env s, s) : StoreM F α) where
  alike env s t h := ⟨hf env s t h, h⟩
  keeps _ _ h := h
  noted _ _ _ _ _ _ hw _ := .refl hw

namespace KvStore

variable {P : Obj F → Prop} {X : Int → Bytes → Prop} {db : Int} {s t : KvStore F} {env : Env}

/-! ## Listing -/

theorem same_purgeExpiredDb (env : Env) (s : KvStore F) :
    Same env.now s (purgeExpiredDb db env s).2 := reads_purgeExpiredDb env s trivial trivial

theorem counters_purgeExpiredDb (env : Env) (s : KvStore F) :
    (purgeExpiredDb db env s).2.counters = s.counters := counters_filterDb ..

theorem all_purgeExpiredDb (h : s.All P) : (purgeExpiredDb db env s).2.All P := by
  intro db' key o ho
  rw [item_purgeExpiredDb] at ho
  split at ho
  · exact h db' key o (item_of_live ho)
  · exact h db' key o ho

/-- A question that is put once the expired entries of the database are gone. -/
theorem orderly_purged {f : KvStore F → α}
    (hf : ∀ s t : KvStore F,
      (∀ key, (s.item db key).map Item.norm = (t.item db key).map Item.norm) → f s = f t) :
    Orderly P X 0 (do purgeExpiredDb db; fun _ s => (f s, s) : StoreM F α) where
  alike env s t h := by
    constructor
    · refine hf _ _ fun key => ?_
      rw [item_purgeExpiredDb, item_purgeExpiredDb, if_pos rfl, if_pos rfl]
      exact h.live db key
    · have ht : t.conf.maxmemory ≤ 0 := h.conf ▸ h.unlimited
      exact ((SameView.of_same h.unlimited (same_purgeExpiredDb env s)
        (counters_purgeExpiredDb env s)).symm.trans h).trans
        (.of_same ht (same_purgeExpiredDb env t) (counters_purgeExpiredDb env t))
  keeps env s h := all_purgeExpiredDb h
  noted env s _ _ _ _ hw _ := .of_same hw (same_purgeExpiredDb env s) (counters_purgeExpiredDb env s)

omit [Platform F] in
theorem keys_congr {m m' : DbMap F} (h : ∀ key, key ∈ m ↔ key ∈ m') : m.keys = m'.keys := by
  have hu : m.map (fun _ _ => ()) = m'.map fun _ _ => () := by
    refine Std.ExtTreeMap.ext_mem_unit fun key => ?_
    rw [Std.ExtTreeMap.mem_map, Std.ExtTreeMap.mem_map]
    exact h key
  rw [← Std.ExtTreeMap.keys_map (f := fun _ _ => ()), hu, Std.ExtTreeMap.keys_map]

variable {key : Bytes}

theorem mem_dbMap {i : Fin 16} :
    key ∈ (s.dbMap i db).getD ∅ ↔ shardIdx F key = i ∧ (s.item db key).isSome := by
  unfold item entry
  constructor
  · intro h
    cases hm : s.dbMap i db with
    | none =>
      rw [hm] at h
      exact absurd h Std.ExtTreeMap.not_mem_empty
    | some m =>
      rw [hm] at h
      have hi := s.placed i db m key hm h
      refine ⟨hi, ?_⟩
      rw [hi, hm, Option.isSome_map]
      exact Std.ExtTreeMap.mem_iff_isSome_getElem?.mp h
  · rintro ⟨rfl, h⟩
    cases hm : s.dbMap (shardIdx F key) db with
    | none => rw [hm] at h; cases h
    | some m =>
      rw [hm, Option.isSome_map] at h
      exact Std.ExtTreeMap.mem_iff_isSome_getElem?.mpr h

theorem dbKeys_congr (h : ∀ key, (s.item db key).map Item.norm = (t.item db key).map Item.norm) :
    s.dbKeys db = t.dbKeys db := by
  unfold dbKeys
  congr 1
  funext i
  refine keys_congr fun key => ?_
  rw [mem_dbMap, mem_dbMap]
  have hs := congrArg Option.isSome (h key)
  rw [Option.isSome_map, Option.isSome_map] at hs
  rw [hs]

theorem orderly_dbsize : Orderly P X 0 (dbsize db : StoreM F _) :=
  orderly_purged fun s t h => by rw [dbKeys_congr h]

theorem orderly_expireCount : Orderly P X 0 (expireCount db : StoreM F _) := by
  refine orderly_purged fun s t h => ?_
  have hany : ∀ key, ((s.item db key).any fun o => decide (0 < o.expireAtMs)) =
      (t.item db key).any fun o => decide (0 < o.expireAtMs) := by
    intro key
    have hk := h key
    cases hs : s.item db key <;> cases ht : t.item db key <;> rw [hs, ht] at hk <;>
      simp_all [Item.norm_eq_iff]
  rw [dbKeys_congr h]
  simp only [hany]

theorem orderly_keys {pattern : Bytes} : Orderly P X 0 (keys db pattern : StoreM F _) :=
  orderly_purged fun s t h => by rw [dbKeys_congr h]

theorem orderly_scan {cursor : Nat} {pattern : Bytes} {count : Int} :
    Orderly P X 0 (scan db cursor pattern count : StoreM F _) := orderly_keys.map

/-! ## Purging -/

theorem counters_eraseAll (dead : List (Int × Bytes)) (s : KvStore F) :
    (dead.foldl (fun s d => s.putEntry d.1 d.2 none) s).counters = s.counters := by
  induction dead generalizing s with
  | nil => rfl
  | cons d dead ih => rw [List.foldl_cons, ih, counters_putEntry]

theorem counters_purgeExpiredActive (maxScan : Int) (env : Env) (s : KvStore F) :
    (purgeExpiredActive maxScan env s).2.counters = s.counters := by
  unfold purgeExpiredActive
  split
  · rfl
  · exact counters_eraseAll _ s

theorem all_eraseAll (dead : List (Int × Bytes)) (h : s.All P) :
    (dead.foldl (fun s d => s.putEntry d.1 d.2 none) s).All P := by
  induction dead generalizing s with
  | nil => exact h
  | cons d dead ih =>
    refine ih fun db key o ho => ?_
    unfold item at ho
    rw [entry_putEntry] at ho
    split at ho
    · cases ho
    · exact h db key o ho

theorem orderly_purgeExpiredActive {maxScan : Int} :
    Orderly P X 0 ((fun _ => ()) <$> purgeExpiredActive maxScan : StoreM F Unit) where
  alike env s t h := by
    have ht : t.conf.maxmemory ≤ 0 := h.conf ▸ h.unlimited
    have hsame : ∀ u : KvStore F, Same env.now u (purgeExpiredActive maxScan env u).2 := fun u =>
      reads_purgeExpiredActive env u trivial trivial
    exact ⟨rfl, ((SameView.of_same h.unlimited (hsame s)
      (counters_purgeExpiredActive maxScan env s)).symm.trans h).trans
      (.of_same ht (hsame t) (counters_purgeExpiredActive maxScan env t))⟩
  keeps env s h := by
    simp only [StoreM.map_apply]
    unfold purgeExpiredActive
    split
    · exact h
    · exact all_eraseAll _ h
  noted env s _ _ _ _ hw _ :=
    .of_same hw (reads_purgeExpiredActive env s trivial trivial) (counters_purgeExpiredActive maxScan env s)

/-! ## Flushing -/

theorem counters_flushdb (env : Env) (s : KvStore F) :
    (flushdb db env s).2.counters = fun i => (s.counters i).bumpDb db := rfl

theorem orderly_flushdb : Orderly P X 1 (flushdb db : StoreM F Unit) where
  alike env s t h := by
    refine ⟨rfl, h.conf, h.unlimited, ?_, ?_⟩
    · rw [counters_flushdb, counters_flushdb, h.counters]
    · funext db' key
      have hv := h.live db' key
      unfold view
      rw [live_map_norm, live_map_norm] at hv ⊢
      rw [item_flushdb, item_flushdb]
      split
      · rfl
      · exact hv
  keeps env s h := by
    intro db' key o ho
    rw [item_flushdb] at ho
    split at ho
    · cases ho
    · exact h db' key o ho
  noted env s db' key _ _ hw hb := by
    have hc : (flushdb db env s).2.counters = _ := counters_flushdb env s
    have hv : (flushdb db env s).2.version db' key = s.version db' key := rfl
    have he : (flushdb db env s).2.epoch db' key =
        if db' = db then (s.epoch db' key + 1) % 2 ^ 64 else s.epoch db' key := by
      unfold epoch
      rw [hc]
      unfold Counters.bumpDb
      by_cases hdb : db' = db
      · subst hdb
        simp
      · simp [hdb]
    by_cases hdb : db' = db
    · rw [if_pos hdb, Nat.mod_eq_of_lt (by omega)] at he
      exact ⟨hw, by omega, by omega, by omega, fun _ h => by omega⟩
    · rw [if_neg hdb] at he
      refine ⟨hw, by omega, by omega, by omega, fun _ _ => content_of_item ?_⟩
      rw [item_flushdb, if_neg hdb]

omit [Platform F] in
theorem foldl_bumpWatchDb (dbs : List Nat) (sh : Shard F) :
    (⟨(dbs.foldl (fun sh (db : Nat) => sh.bumpWatchDb db) sh).watchVersions,
      (dbs.foldl (fun sh (db : Nat) => sh.bumpWatchDb db) sh).dbWatchEpoch,
      (dbs.foldl (fun sh (db : Nat) => sh.bumpWatchDb db) sh).hasWatches⟩ : Counters) =
      dbs.foldl (fun c (db : Nat) => c.bumpDb db) ⟨sh.watchVersions, sh.dbWatchEpoch, sh.hasWatches⟩ := by
  induction dbs generalizing sh with
  | nil => rfl
  | cons db dbs ih => exact ih (sh.bumpWatchDb db)

theorem counters_flushall (env : Env) (s : KvStore F) : (flushall env s).2.counters =
    fun i => (List.range 16).foldl (fun c (db : Nat) => c.bumpDb db) (s.counters i) := by
  funext i
  exact foldl_bumpWatchDb _ (s.shards i)

theorem foldl_bumpDb {dbs : List Nat} (hnd : dbs.Nodup) (c : Counters) :
    (dbs.foldl (fun c (db : Nat) => c.bumpDb db) c).versions = c.versions ∧
      (dbs.foldl (fun c (db : Nat) => c.bumpDb db) c).on = c.on ∧
      ∀ n : Nat, (dbs.foldl (fun c (db : Nat) => c.bumpDb db) c).epochs n =
        if n ∈ dbs then (c.epochs n + 1) % 2 ^ 64 else c.epochs n := by
  induction dbs generalizing c with
  | nil => exact ⟨rfl, rfl, fun n => rfl⟩
  | cons db dbs ih =>
    obtain ⟨hv, ho, he⟩ := ih (List.nodup_cons.mp hnd).2 (c.bumpDb db)
    have hnot := (List.nodup_cons.mp hnd).1
    refine ⟨hv, ho, fun n => ?_⟩
    rw [List.foldl_cons, he n]
    by_cases hn : n = db
    · subst hn
      simp [hnot, Counters.bumpDb]
    · have hne : (n : Int) ≠ (db : Int) := by omega
      simp [hn, hne, Counters.bumpDb]

theorem orderly_flushall : Orderly P X 1 (flushall : StoreM F Unit) where
  alike env s t h := by
    refine ⟨rfl, h.conf, h.unlimited, ?_, ?_⟩
    · rw [counters_flushall, counters_flushall, h.counters]
    · funext db' key
      unfold view live
      rw [item_flushall, item_flushall]
  keeps env s h := by
    intro db' key o ho
    rw [item_flushall] at ho
    cases ho
  noted env s db' key hdb _ hw hb := by
    have hc := counters_flushall env s
    obtain ⟨n, rfl⟩ := Int.eq_ofNat_of_zero_le hdb.1
    have hn : n ∈ List.range 16 := List.mem_range.mpr (by have := hdb.2; omega)
    have hnd : (List.range 16).Nodup := List.nodup_range
    obtain ⟨hv, ho, he⟩ := foldl_bumpDb hnd (s.counters (shardIdx F key))
    have hver : (flushall env s).2.version n key = s.version n key := by
      unfold version
      rw [hc]
      simp only [hv]
    have hep : (flushall env s).2.epoch n key = s.epoch n key + 1 := by
      have hlt : s.epoch n key + 1 < 2 ^ 64 := by omega
      unfold epoch at hlt ⊢
      rw [hc]
      simp only
      rw [he n, if_pos hn, Nat.mod_eq_of_lt hlt]
    have hwatch : (flushall env s).2.Watching key := by
      unfold Watching at hw ⊢
      rw [hc]
      exact ho.trans hw
    exact ⟨hwatch, by omega, by omega, by omega, fun _ h => by omega⟩

/-! ## Tokens -/

theorem item_watchToken (db : Int) (key : Bytes) (env : Env) (s : KvStore F) :
    (watchToken db key env s).2.item = s.item := by
  funext db' key'
  unfold item entry dbMap watchToken setShard
  simp only
  by_cases hi : shardIdx F key' = shardIdx F key
  · rw [hi, Function.update_self]
  · rw [Function.update_of_ne hi]

theorem counters_watchToken (db : Int) (key : Bytes) (env : Env) (s : KvStore F) :
    (watchToken db key env s).2.counters =
      Function.update s.counters (shardIdx F key) { s.counters (shardIdx F key) with on := true } := by
  unfold watchToken
  rw [counters_setShard]
  rfl

theorem noted_watchToken {db' : Int} {key key' : Bytes} (hw : s.Watching key' ∨ key' = key) :
    Noted db' key' env.now 0 s (watchToken db key env s).2 := by
  have hc := counters_watchToken db key env s
  have hcounts : (watchToken db key env s).2.version db' key' = s.version db' key' ∧
      (watchToken db key env s).2.epoch db' key' = s.epoch db' key' ∧
      (watchToken db key env s).2.Watching key' := by
    unfold version epoch Watching
    rw [hc]
    by_cases hi : shardIdx F key' = shardIdx F key
    · rw [hi, Function.update_self]
      exact ⟨rfl, rfl, rfl⟩
    · rw [Function.update_of_ne hi]
      exact ⟨rfl, rfl, hw.resolve_right fun hk => hi (by rw [hk])⟩
  obtain ⟨hv, he, hwatch⟩ := hcounts
  exact ⟨hwatch, by omega, by omega, by omega, fun _ _ => content_of_item (by rw [item_watchToken])⟩

theorem orderly_watchToken : Orderly P X 0 (watchToken db key : StoreM F Nat) where
  alike env s t h := by
    refine ⟨?_, h.conf, h.unlimited, ?_, ?_⟩
    · have hc := congrFun h.counters (shardIdx F key)
      have htok : s.token db key = t.token db key := by
        rw [token_eq, token_eq]
        unfold epoch version
        rw [hc]
      exact htok
    · rw [counters_watchToken, counters_watchToken, h.counters]
    · funext db' key'
      have hv := h.live db' key'
      unfold view
      rw [live_map_norm, live_map_norm] at hv ⊢
      rw [item_watchToken, item_watchToken]
      exact hv
  keeps env s h := by
    unfold All
    rw [item_watchToken]
    exact h
  noted env s db' key' _ _ hw _ := noted_watchToken (.inl hw)

/-! ## Memory -/

omit [Platform F] in
theorem estimateBytes_congr {e e' : Entry F} (h : e.toItem.norm = e'.toItem.norm) :
    e.estimateBytes key = e'.estimateBytes key := by
  obtain ⟨⟨⟨t, _⟩, _⟩, _⟩ := e
  obtain ⟨⟨⟨t', _⟩, _⟩, _⟩ := e'
  obtain rfl : t = t' := by
    have ht := congrArg (fun o : Item F => o.type) h
    simpa using ht
  cases t <;> simp_all [Item.norm, Obj.norm, Entry.estimateBytes]

theorem mem_listing {order : List Bytes → List Bytes} (ho : ∀ l, (order l).Perm l)
    {e : Entry F} (h : s.entry db key = some e) : (shardIdx F key, db, key, e) ∈ s.listing order := by
  unfold entry dbMap at h
  obtain ⟨m, hm, hk⟩ := Option.bind_eq_some_iff.mp h
  have hkeys : key ∈ order m.keys := (ho m.keys).mem_iff.mpr
    (Std.ExtTreeMap.mem_keys.mpr (Std.ExtTreeMap.mem_iff_isSome_getElem?.mpr (by rw [hk]; rfl)))
  unfold listing
  refine List.mem_flatMap.mpr ⟨shardIdx F key, List.mem_finRange _, List.mem_flatMap.mpr
    ⟨⟨db, m⟩, AList.mem_lookup_iff.mp hm, List.mem_filterMap.mpr ⟨key, hkeys, ?_⟩⟩⟩
  rw [hk]
  rfl

theorem nodup_listing {order : List Bytes → List Bytes} (ho : ∀ l, (order l).Perm l) (s : KvStore F) :
    ((s.listing order).map fun x => (x.2.1, x.2.2.1)).Nodup := by
  refine List.Nodup.map_on ?_ ?_
  · rintro ⟨i, d, k, e⟩ hx ⟨j, d', k', e'⟩ hy heq
    obtain ⟨rfl, rfl⟩ := Prod.mk.inj heq
    obtain ⟨hi, he⟩ := entry_of_mem_listing hx
    obtain ⟨hj, he'⟩ := entry_of_mem_listing hy
    rw [he, Option.some.injEq] at he'
    rw [← hi, ← hj, he']
  · -- shards, databases and keys are each met once
    unfold listing
    refine List.nodup_flatMap.mpr ⟨fun i _ => List.nodup_flatMap.mpr ⟨fun d _ => ?_, ?_⟩, ?_⟩
    · refine List.Nodup.filterMap ?_ ((ho d.2.keys).nodup_iff.mpr Std.ExtTreeMap.nodup_keys)
      intro k k' x hx hx'
      obtain ⟨e, -, rfl⟩ := Option.map_eq_some_iff.mp hx
      obtain ⟨e', -, heq⟩ := Option.map_eq_some_iff.mp hx'
      simp only [Prod.mk.injEq] at heq
      exact heq.2.2.1.symm
    · refine (AList.nodupKeys (s.shards i).dbs).pairwise_ne.imp fun hne x hx hx' => ?_
      obtain ⟨k, -, hx⟩ := List.mem_filterMap.mp hx
      obtain ⟨k', -, hx'⟩ := List.mem_filterMap.mp hx'
      obtain ⟨e, -, rfl⟩ := Option.map_eq_some_iff.mp hx
      obtain ⟨e', -, heq⟩ := Option.map_eq_some_iff.mp hx'
      simp only [Prod.mk.injEq] at heq
      exact hne heq.2.1.symm
    · refine (List.nodup_finRange 16).imp fun hne x hx hx' => ?_
      obtain ⟨d, -, hx⟩ := List.mem_flatMap.mp hx
      obtain ⟨d', -, hx'⟩ := List.mem_flatMap.mp hx'
      obtain ⟨k, -, hx⟩ := List.mem_filterMap.mp hx
      obtain ⟨k', -, hx'⟩ := List.mem_filterMap.mp hx'
      obtain ⟨e, -, rfl⟩ := Option.map_eq_some_iff.mp hx
      obtain ⟨e', -, heq⟩ := Option.map_eq_some_iff.mp hx'
      simp only [Prod.mk.injEq] at heq
      exact hne heq.1.symm

/-- What one key adds to the estimate. -/
def liveBytes (now : Int) (s : KvStore F) (x : Int × Bytes) : Int :=
  (s.live now x.1 x.2).elim 0 fun o => ({ o with } : Entry F).estimateBytes x.2

theorem usedMemory_eq (env : Env) (s : KvStore F) : s.usedMemory env =
    (((s.unexpired env).map fun c => (c.db, c.key)).map (s.liveBytes env.now)).sum := by
  unfold usedMemory
  rw [List.map_map]
  congr 1
  refine List.map_congr_left fun c hc => ?_
  have hl := live_of_mem_unexpired hc
  unfold liveBytes
  simp only [Function.comp, hl]
  exact estimateBytes_congr rfl

theorem mem_unexpired :
    (db, key) ∈ (s.unexpired env).map (fun c => (c.db, c.key)) ↔ (s.live env.now db key).isSome := by
  constructor
  · intro h
    obtain ⟨c, hc, heq⟩ := List.mem_map.mp h
    obtain ⟨rfl, rfl⟩ := Prod.mk.inj heq
    rw [live_of_mem_unexpired hc]
    rfl
  · intro h
    rw [live_eq_entry, Option.isSome_map] at h
    obtain ⟨e, he⟩ := Option.isSome_iff_exists.mp h
    obtain ⟨he, hex⟩ := Option.filter_eq_some_iff.mp he
    refine List.mem_map.mpr ⟨⟨db, key, e⟩, ?_, rfl⟩
    unfold unexpired
    exact List.mem_filter.mpr ⟨List.mem_map.mpr ⟨_, mem_listing env.order_perm he, rfl⟩, hex⟩

theorem nodup_unexpired (env : Env) (s : KvStore F) : ((s.unexpired env).map fun c => (c.db, c.key)).Nodup := by
  unfold unexpired
  refine List.Sublist.nodup (List.Sublist.map _ List.filter_sublist) ?_
  rw [List.map_map]
  exact nodup_listing env.order_perm s

theorem usedMemory_congr (h : SameView env.now s t) : s.usedMemory env = t.usedMemory env := by
  have hperm : ((s.unexpired env).map fun c => (c.db, c.key)).Perm
      ((t.unexpired env).map fun c => (c.db, c.key)) := by
    refine (List.perm_ext_iff_of_nodup (nodup_unexpired env s) (nodup_unexpired env t)).mpr fun ⟨db, key⟩ => ?_
    rw [mem_unexpired, mem_unexpired]
    have hl := congrArg Option.isSome (h.live db key)
    rw [Option.isSome_map, Option.isSome_map] at hl
    rw [hl]
  have hbytes : s.liveBytes env.now = t.liveBytes env.now := by
    funext x
    have hl := h.live x.1 x.2
    unfold liveBytes
    cases hs : s.live env.now x.1 x.2 <;> cases ht : t.live env.now x.1 x.2 <;> rw [hs, ht] at hl <;>
      simp only [Option.map_some, Option.map_none, Option.some.injEq, reduceCtorEq] at hl
    exact estimateBytes_congr hl
  rw [usedMemory_eq, usedMemory_eq, hbytes]
  exact (hperm.map _).sum_eq

theorem orderly_usedMemory : Orderly P X 0 (fun env s => (s.usedMemory env, s) : StoreM F Int) :=
  .gets fun _ _ _ h => usedMemory_congr h

end KvStore

end Kv
