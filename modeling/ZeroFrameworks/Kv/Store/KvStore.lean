import Mathlib.Data.Fintype.Basic
import Mathlib.Data.List.AList
import Mathlib.Data.List.FinRange
import ZeroFrameworks.Kv.Platform

/-!
# KvStore

The store is sixteen shards; a key lives in the shard its hash names (`placed`).  A shard maps
database numbers to key maps and counts changes for WATCH.

Every operation on one key goes through `onEntry` or `onFound`: find the entry (an expired one
is erased on the way), let the operation's body look at it, and carry out what the body asks
for.  The body's answer is an `Out`: what becomes of the entry, whether the entry is touched,
whether WATCH is told, and the reply.

`item s db key` is what the store holds, `live now s db key` what is not expired, and
`view now s db key` the part of it that commands can see.

    (onEntry now db key body s).1 = (body (live now s db key)).reply   (onEntry_reply)
    item (onEntry now db key body s).2 = item s, changed at (db, key) only   (item_onEntry)
-/

namespace Kv

variable {F : Type}

abbrev DbMap (F : Type) := BMap (Entry F)

structure Shard (F : Type) where
  dbs : AList (fun _ : Int => DbMap F) := ∅
  watchVersions : Int → BMap Nat := fun _ => ∅
  dbWatchEpoch : Int → Nat := fun _ => 0
  hasWatches : Bool := false

namespace Shard

def bumpWatchKey (sh : Shard F) (db : Int) (key : Bytes) : Shard F :=
  if sh.hasWatches then
    let versions := sh.watchVersions db
    let bumped := versions.insert key ((versions[key]?.getD 0 + 1) % 2 ^ 64)
    { sh with watchVersions := Function.update sh.watchVersions db bumped }
  else sh

def bumpWatchDb (sh : Shard F) (db : Int) : Shard F :=
  { sh with dbWatchEpoch :=
      Function.update sh.dbWatchEpoch db ((sh.dbWatchEpoch db + 1) % 2 ^ 64) }

def watchToken (sh : Shard F) (db : Int) (key : Bytes) : Nat :=
  ((sh.dbWatchEpoch db <<< 32) % 2 ^ 64) ^^^ (sh.watchVersions db)[key]?.getD 0

@[simp] theorem bumpWatchKey_dbs (sh : Shard F) (db : Int) (key : Bytes) :
    (sh.bumpWatchKey db key).dbs = sh.dbs := by
  unfold bumpWatchKey; split <;> rfl

@[simp] theorem bumpWatchDb_dbs (sh : Shard F) (db : Int) : (sh.bumpWatchDb db).dbs = sh.dbs := rfl

end Shard

/-- `shardIdx`. -/
def shardIdx (F : Type) [Platform F] (key : Bytes) : Fin 16 :=
  ⟨Platform.hash F key % 16, Nat.mod_lt _ (by decide)⟩

/-- Database numbers that SELECT takes, those below `kMaxDb`. -/
def IsDb (db : Int) : Prop := 0 ≤ db ∧ db < 16

instance (db : Int) : Decidable (IsDb db) := inferInstanceAs (Decidable (_ ∧ _))

/-- The settings a store carries next to its shards. -/
structure StoreConf where
  rdbPath : Bytes := lit "./dump.rdb"
  lastSaveSec : Int := 0
  maxmemory : Int := 0
  maxmemoryPolicy : Bytes := lit "allkeys-lru"

/-- `evictIfNeededLocked` returns at once under these settings. -/
def StoreConf.NoEvict (c : StoreConf) : Prop :=
  c.maxmemory ≤ 0 ∨ c.maxmemoryPolicy = lit "noeviction"

theorem StoreConf.NoEvict.of_eq {c c' : StoreConf} (h : c' = c) (hn : c.NoEvict) : c'.NoEvict :=
  h ▸ hn

instance (c : StoreConf) : Decidable c.NoEvict := inferInstanceAs (Decidable (_ ∨ _))

structure KvStore (F : Type) [Platform F] where
  shards : Fin 16 → Shard F
  /-- A key is only in the shard its hash names. -/
  placed : ∀ i db m key, (shards i).dbs.lookup db = some m → key ∈ m → shardIdx F key = i
  conf : StoreConf := {}

variable [Platform F]

namespace KvStore

/-- A store with nothing in it. -/
def empty : KvStore F where
  shards _ := {}
  placed _ _ _ _ h := by cases h

/-! ## Looking at a store -/

def dbMap (s : KvStore F) (i : Fin 16) (db : Int) : Option (DbMap F) := (s.shards i).dbs.lookup db

def entry (s : KvStore F) (db : Int) (key : Bytes) : Option (Entry F) :=
  (s.dbMap (shardIdx F key) db).bind (·[key]?)

/-- What the store holds under a key, expired or not. -/
def item (s : KvStore F) (db : Int) (key : Bytes) : Option (Item F) := (s.entry db key).map Entry.toItem

/-- What `findEntry` finds. -/
def live (now : Int) (s : KvStore F) (db : Int) (key : Bytes) : Option (Item F) :=
  (s.item db key).filter fun o => !o.expired now

/-- The live contents: existence, value, TTL and stream groups of every key. -/
def view (now : Int) (s : KvStore F) (db : Int) (key : Bytes) : Option (Item F) :=
  (s.live now db key).map Item.norm

/-- All entries in the order the shard and database loops meet them. -/
def listing (order : List Bytes → List Bytes) (s : KvStore F) :
    List (Fin 16 × Int × Bytes × Entry F) :=
  (List.finRange 16).flatMap fun i => (s.shards i).dbs.entries.flatMap fun db =>
    (order db.2.keys).filterMap fun key => db.2[key]?.map fun e => (i, db.1, key, e)

/-! ## Changing a store -/

def setShard (s : KvStore F) (i : Fin 16) (sh : Shard F)
    (h : ∀ db m key, sh.dbs.lookup db = some m → key ∈ m → shardIdx F key = i) : KvStore F :=
  { s with
    shards := Function.update s.shards i sh
    placed := by
      intro j db m key hl hk
      by_cases hj : j = i
      · subst hj
        rw [Function.update_self] at hl
        exact h db m key hl hk
      · rw [Function.update_of_ne hj] at hl
        exact s.placed j db m key hl hk }

/-- Replace one key's entry in its shard, creating the database if need be. -/
def putEntry (s : KvStore F) (db : Int) (key : Bytes) (e : Option (Entry F)) : KvStore F :=
  let sh := s.shards (shardIdx F key)
  let m := (sh.dbs.lookup db).getD ∅
  let m' := match e with
    | some e => m.insert key e
    | none => m.erase key
  s.setShard (shardIdx F key) { sh with dbs := sh.dbs.insert db m' } (by
    intro db' n k hl hk
    by_cases hdb : db' = db
    · subst hdb
      rw [AList.lookup_insert, Option.some.injEq] at hl
      subst hl
      by_cases hkey : k = key
      · rw [hkey]
      · have hkm : k ∈ m := by
          cases e with
          | some e =>
            exact (Std.ExtTreeMap.mem_insert.mp hk).resolve_left fun h =>
              hkey (Std.LawfulEqCmp.eq_of_compare h).symm
          | none => exact (Std.ExtTreeMap.mem_erase.mp hk).2
        cases hl : sh.dbs.lookup db' with
        | none =>
          rw [show m = ∅ by simp [m, hl]] at hkm
          exact absurd hkm Std.ExtTreeMap.not_mem_empty
        | some m0 =>
          rw [show m = m0 by simp [m, hl]] at hkm
          exact s.placed _ db' m0 k hl hkm
    · rw [AList.lookup_insert_ne hdb] at hl
      exact s.placed _ db' n k hl hk)

def bumpWatchKey (s : KvStore F) (db : Int) (key : Bytes) : KvStore F :=
  s.setShard (shardIdx F key) ((s.shards (shardIdx F key)).bumpWatchKey db key) (by
    intro db' m k hl hk
    rw [Shard.bumpWatchKey_dbs] at hl
    exact s.placed _ db' m k hl hk)

/-- Erase the entries of one database that `p` does not keep, in every shard that has it. -/
def filterDb (s : KvStore F) (db : Int) (p : Entry F → Bool) : KvStore F :=
  { s with
    shards := fun i =>
      match (s.shards i).dbs.lookup db with
      | none => s.shards i
      | some m => { s.shards i with dbs := (s.shards i).dbs.insert db (m.filter fun _ e => p e) }
    placed := by
      intro i db' m key hl hk
      split at hl
      · exact s.placed i db' m key hl hk
      next m0 hm0 =>
        by_cases hdb : db' = db
        · subst hdb
          rw [AList.lookup_insert, Option.some.injEq] at hl
          subst hl
          exact s.placed i db' m0 key hm0 (Std.ExtTreeMap.mem_of_mem_filter hk)
        · rw [AList.lookup_insert_ne hdb] at hl
          exact s.placed i db' m key hl hk }

/-! ## Operations on one key -/

variable {α : Type}

/-- `Shard& shard = getShard(key); DbMap& dbmap = shard.m_dbs[db]; findEntry(dbmap, key, now)`,
then `body`. -/
def onEntry (now db : Int) (key : Bytes) (body : Option (Item F) → Out (Item F) α) (s : KvStore F) :
    α × KvStore F :=
  let old := (s.entry db key).filter fun e => !e.expired now
  let out := body (old.map Entry.toItem)
  let s' := s.putEntry db key (out.entry now old)
  (out.reply, if out.bump then s'.bumpWatchKey db key else s')

/-- `m_dbs[db][key]`, without asking whether the entry there is expired. -/
def onSlot (now db : Int) (key : Bytes) (body : Option (Item F) → Out (Item F) α) (s : KvStore F) :
    α × KvStore F :=
  let old := s.entry db key
  let out := body (old.map Entry.toItem)
  let s' := s.putEntry db key (out.entry now old)
  (out.reply, if out.bump then s'.bumpWatchKey db key else s')

/-- As `onEntry`, but through `m_dbs.find(db)`: a missing database is not created, and `absent`
is the reply when there is no entry. -/
def onFound (now db : Int) (key : Bytes) (absent : α) (body : Item F → Out (Item F) α) (s : KvStore F) :
    α × KvStore F :=
  match s.dbMap (shardIdx F key) db with
  | none => (absent, s)
  | some _ => onEntry now db key (fun o => o.elim { reply := absent } body) s

/-! ## Lemmas -/

theorem item_empty (db : Int) (key : Bytes) : (empty : KvStore F).item db key = none := rfl

omit [Platform F] in
theorem getElem?_insertErase (m : DbMap F) (key k : Bytes) (e : Option (Entry F)) :
    (match e with
      | some e => m.insert key e
      | none => m.erase key)[k]? = if k = key then e else m[k]? := by
  by_cases h : k = key
  · subst h
    cases e <;> simp
  · have hc : compare key k ≠ .eq := fun hc => h (Std.LawfulEqCmp.eq_of_compare hc).symm
    cases e <;> simp [Std.ExtTreeMap.getElem?_insert, Std.ExtTreeMap.getElem?_erase, h, hc]

theorem entry_putEntry (s : KvStore F) (db db' : Int) (key key' : Bytes) (e : Option (Entry F)) :
    (s.putEntry db key e).entry db' key' =
      if db' = db ∧ key' = key then e else s.entry db' key' := by
  unfold entry dbMap putEntry setShard
  simp only
  by_cases hi : shardIdx F key' = shardIdx F key
  · rw [hi, Function.update_self]
    by_cases hdb : db' = db
    · subst hdb
      rw [AList.lookup_insert, Option.bind_some, getElem?_insertErase]
      by_cases hk : key' = key
      · simp [hk]
      · simp only [hk, and_false, if_false]
        cases (s.shards (shardIdx F key)).dbs.lookup db' <;> simp
    · rw [AList.lookup_insert_ne hdb, if_neg (fun h => hdb h.1)]
  · rw [Function.update_of_ne hi, if_neg (fun h => hi (by rw [h.2]))]

@[simp] theorem entry_bumpWatchKey (s : KvStore F) (db db' : Int) (key key' : Bytes) :
    (s.bumpWatchKey db key).entry db' key' = s.entry db' key' := by
  unfold entry dbMap bumpWatchKey setShard
  simp only
  by_cases hi : shardIdx F key' = shardIdx F key
  · rw [hi, Function.update_self, Shard.bumpWatchKey_dbs]
  · rw [Function.update_of_ne hi]

@[simp] theorem conf_putEntry (s : KvStore F) (db : Int) (key : Bytes) (e : Option (Entry F)) :
    (s.putEntry db key e).conf = s.conf := rfl

@[simp] theorem conf_bumpWatchKey (s : KvStore F) (db : Int) (key : Bytes) :
    (s.bumpWatchKey db key).conf = s.conf := rfl

@[simp] theorem conf_filterDb (s : KvStore F) (db : Int) (p : Entry F → Bool) :
    (s.filterDb db p).conf = s.conf := rfl

theorem entry_filterDb (s : KvStore F) (db db' : Int) (p : Entry F → Bool) (key : Bytes) :
    (s.filterDb db p).entry db' key =
      if db' = db then (s.entry db' key).filter p else s.entry db' key := by
  unfold entry dbMap filterDb
  simp only
  by_cases hdb : db' = db
  · subst hdb
    rw [if_pos rfl]
    split
    next h => rw [h]; rfl
    next m h =>
      rw [h, AList.lookup_insert, Option.bind_some, Option.bind_some,
        Std.ExtTreeMap.getElem?_filter']
  · rw [if_neg hdb]
    split
    · rfl
    next m h => rw [AList.lookup_insert_ne hdb]

theorem live_eq_entry (now : Int) (s : KvStore F) (db : Int) (key : Bytes) :
    s.live now db key = ((s.entry db key).filter fun e => !e.expired now).map Entry.toItem := by
  unfold live item
  cases s.entry db key with
  | none => rfl
  | some e => cases h : e.expired now <;> simp [Option.filter, h]

theorem item_of_live {now : Int} {s : KvStore F} {db : Int} {key : Bytes} {o : Item F}
    (h : s.live now db key = some o) : s.item db key = some o :=
  (Option.filter_eq_some_iff.mp h).1

theorem live_map_norm (now : Int) (s : KvStore F) (db : Int) (key : Bytes) :
    (s.live now db key).map Item.norm =
      ((s.item db key).map Item.norm).filter fun o => !o.expired now := by
  unfold live
  cases s.item db key with
  | none => rfl
  | some o => cases h : o.expired now <;> simp [Option.filter, h]

@[simp] theorem onEntry_reply (now db : Int) (key : Bytes) (body : Option (Item F) → Out (Item F) α)
    (s : KvStore F) : (onEntry now db key body s).1 = (body (s.live now db key)).reply := by
  rw [live_eq_entry]; rfl

theorem item_onEntry (now db db' : Int) (key key' : Bytes) (body : Option (Item F) → Out (Item F) α)
    (s : KvStore F) : (onEntry now db key body s).2.item db' key' =
      if db' = db ∧ key' = key then (body (s.live now db key)).act.apply (s.live now db key)
      else s.item db' key' := by
  unfold item onEntry
  rw [live_eq_entry]
  simp only [apply_ite (fun t : KvStore F => t.entry db' key'), entry_bumpWatchKey,
    entry_putEntry, ite_self]
  split
  · rw [Out.entry_toItem]
  · rfl

@[simp] theorem conf_onEntry (now db : Int) (key : Bytes) (body : Option (Item F) → Out (Item F) α)
    (s : KvStore F) : (onEntry now db key body s).2.conf = s.conf := by
  unfold onEntry
  simp only [apply_ite (fun t : KvStore F => t.conf), conf_bumpWatchKey, conf_putEntry, ite_self]

theorem item_onSlot (now db db' : Int) (key key' : Bytes) (body : Option (Item F) → Out (Item F) α)
    (s : KvStore F) : (onSlot now db key body s).2.item db' key' =
      if db' = db ∧ key' = key then (body (s.item db key)).act.apply (s.item db key)
      else s.item db' key' := by
  unfold item onSlot
  simp only [apply_ite (fun t : KvStore F => t.entry db' key'), entry_bumpWatchKey,
    entry_putEntry, ite_self]
  split
  · rw [Out.entry_toItem]
  · rfl

@[simp] theorem conf_onSlot (now db : Int) (key : Bytes) (body : Option (Item F) → Out (Item F) α)
    (s : KvStore F) : (onSlot now db key body s).2.conf = s.conf := by
  unfold onSlot
  simp only [apply_ite (fun t : KvStore F => t.conf), conf_bumpWatchKey, conf_putEntry, ite_self]

theorem live_of_dbMap_none {now : Int} {s : KvStore F} {db : Int} {key : Bytes}
    (h : s.dbMap (shardIdx F key) db = none) : s.live now db key = none := by
  simp [live, item, entry, h]

theorem onFound_reply (now db : Int) (key : Bytes) (absent : α) (body : Item F → Out (Item F) α)
    (s : KvStore F) : (onFound now db key absent body s).1 =
      (s.live now db key).elim absent fun o => (body o).reply := by
  unfold onFound
  split
  next h => rw [live_of_dbMap_none h]; rfl
  next h =>
    rw [onEntry_reply]
    cases s.live now db key <;> rfl

theorem item_onFound (now db db' : Int) (key key' : Bytes) (absent : α) (body : Item F → Out (Item F) α)
    (s : KvStore F) : (onFound now db key absent body s).2.item db' key' =
      if db' = db ∧ key' = key then
        (s.live now db key).bind fun o => (body o).act.apply (some o)
      else s.item db' key' := by
  unfold onFound
  split
  next h =>
    rw [live_of_dbMap_none h]
    split
    next hk => simp [item, entry, hk.1, hk.2, h]
    · rfl
  next h =>
    rw [item_onEntry]
    cases s.live now db key <;> rfl

@[simp] theorem conf_onFound (now db : Int) (key : Bytes) (absent : α) (body : Item F → Out (Item F) α)
    (s : KvStore F) : (onFound now db key absent body s).2.conf = s.conf := by
  unfold onFound
  split
  · rfl
  · rw [conf_onEntry]

end KvStore

end Kv
