import ZeroFrameworks.Kv.Store.Evict

/-!
# What a store counts for WATCH

A shard has a version for each key, which the operations advance with `bumpWatchKey` once somebody
watches a key of the shard, and an epoch for each database, which a flush advances.  A token packs
the two into 64 bits.

`Noted db key now n s s'` says what a computation that takes `s` to `s'` may do to a watched key:
if its contents changed then version or epoch did, and these advance by at most `n` together.  The
relation is closed under sequencing (`Noted.trans`), and while version and epoch are below `2 ^ 32`
the token shows both:

    s.Counted db key → s'.Counted db key → s.token db key = s'.token db key →
      s.version db key = s'.version db key ∧ s.epoch db key = s'.epoch db key   (token_inj)
-/

namespace Kv

variable {F : Type} [Platform F] {α : Type}

/-- What a shard counts: a version for each key of a database and an epoch for the database. -/
structure Counters where
  versions : Int → BMap Nat
  epochs : Int → Nat
  on : Bool

namespace Counters

/-- `bumpWatchKey` of a shard. -/
def bump (c : Counters) (db : Int) (key : Bytes) : Counters :=
  if c.on then
    let bumped := (c.versions db).insert key (((c.versions db)[key]?.getD 0 + 1) % 2 ^ 64)
    { c with versions := Function.update c.versions db bumped }
  else c

/-- `bumpWatchDb` of a shard. -/
def bumpDb (c : Counters) (db : Int) : Counters :=
  { c with epochs := Function.update c.epochs db ((c.epochs db + 1) % 2 ^ 64) }

end Counters

/-- The counters of the shards after `bumpWatchKey`, if it is called. -/
def bumpIf (F : Type) [Platform F] (c : Fin 16 → Counters) (db : Int) (key : Bytes) (b : Bool) :
    Fin 16 → Counters :=
  if b then Function.update c (shardIdx F key) ((c (shardIdx F key)).bump db key) else c

namespace KvStore

/-- `KvStore::watchToken`: from now on the shard counts changes. -/
def watchToken (db : Int) (key : Bytes) : StoreM F Nat := fun _ s =>
  let sh := s.shards (shardIdx F key)
  (sh.watchToken db key, s.setShard (shardIdx F key) { sh with hasWatches := true }
    fun db' m k hl hk => s.placed _ db' m k hl hk)

def counters (s : KvStore F) (i : Fin 16) : Counters :=
  ⟨(s.shards i).watchVersions, (s.shards i).dbWatchEpoch, (s.shards i).hasWatches⟩

def version (s : KvStore F) (db : Int) (key : Bytes) : Nat :=
  ((s.counters (shardIdx F key)).versions db)[key]?.getD 0

def epoch (s : KvStore F) (db : Int) (key : Bytes) : Nat := (s.counters (shardIdx F key)).epochs db

/-- Changes of the key are counted. -/
def Watching (s : KvStore F) (key : Bytes) : Prop := (s.counters (shardIdx F key)).on = true

def token (s : KvStore F) (db : Int) (key : Bytes) : Nat :=
  (s.shards (shardIdx F key)).watchToken db key

/-- Type, value and existence of a key: what WATCH is about. -/
def content (now : Int) (s : KvStore F) (db : Int) (key : Bytes) : Option (Obj F) :=
  (s.live now db key).map fun o => o.toObj.norm

/-- Version and epoch fit the halves of the token. -/
def Counted (s : KvStore F) (db : Int) (key : Bytes) : Prop :=
  s.version db key < 2 ^ 32 ∧ s.epoch db key < 2 ^ 32

/-! ## Lemmas -/

theorem counters_setShard (s : KvStore F) (i : Fin 16) (sh : Shard F) (h) :
    (s.setShard i sh h).counters =
      Function.update s.counters i ⟨sh.watchVersions, sh.dbWatchEpoch, sh.hasWatches⟩ := by
  funext j
  unfold counters setShard
  by_cases hj : j = i
  · subst hj
    simp only [Function.update_self]
  · simp only [Function.update_of_ne hj]

@[simp] theorem counters_putEntry (s : KvStore F) (db : Int) (key : Bytes) (e : Option (Entry F)) :
    (s.putEntry db key e).counters = s.counters := by
  unfold putEntry
  rw [counters_setShard]
  exact Function.update_eq_self _ _

theorem counters_bumpWatchKey (s : KvStore F) (db : Int) (key : Bytes) :
    (s.bumpWatchKey db key).counters = bumpIf F s.counters db key true := by
  unfold bumpWatchKey bumpIf
  rw [counters_setShard, if_pos rfl]
  congr 1
  unfold Counters.bump Shard.bumpWatchKey counters
  simp only
  split <;> rfl

theorem counters_onEntry (now db : Int) (key : Bytes) (body : Option (Item F) → Out (Item F) α)
    (s : KvStore F) : (onEntry now db key body s).2.counters =
      bumpIf F s.counters db key (body (s.live now db key)).bump := by
  unfold onEntry
  rw [live_eq_entry]
  simp only
  split
  next hb => rw [counters_bumpWatchKey, counters_putEntry, hb]
  next hb => rw [counters_putEntry, bumpIf, if_neg hb]

theorem counters_onSlot (now db : Int) (key : Bytes) (body : Option (Item F) → Out (Item F) α)
    (s : KvStore F) : (onSlot now db key body s).2.counters =
      bumpIf F s.counters db key (body (s.item db key)).bump := by
  unfold onSlot item
  simp only
  split
  next hb => rw [counters_bumpWatchKey, counters_putEntry, hb]
  next hb => rw [counters_putEntry, bumpIf, if_neg hb]

theorem counters_onFound (now db : Int) (key : Bytes) (absent : α) (body : Item F → Out (Item F) α)
    (s : KvStore F) : (onFound now db key absent body s).2.counters =
      bumpIf F s.counters db key ((s.live now db key).elim false fun o => (body o).bump) := by
  unfold onFound
  split
  next h =>
    rw [live_of_dbMap_none h]
    rfl
  next h =>
    rw [counters_onEntry]
    cases s.live now db key <;> rfl

@[simp] theorem counters_filterDb (s : KvStore F) (db : Int) (p : Entry F → Bool) :
    (s.filterDb db p).counters = s.counters := by
  funext i
  unfold counters filterDb
  simp only
  split <;> rfl

theorem content_eq (now : Int) (s : KvStore F) (db : Int) (key : Bytes) :
    s.content now db key = (s.view now db key).map fun o => o.toObj := by
  unfold content view
  rw [Option.map_map]
  rfl

/-- A version advances when its own key is bumped and is left alone otherwise. -/
theorem version_bumpIf {s s' : KvStore F} {db db' : Int} {key key' : Bytes} {b : Bool}
    (h : s'.counters = bumpIf F s.counters db' key' b) (hw : s.Watching key) :
    s'.version db key =
      if b = true ∧ db = db' ∧ key = key' then (s.version db key + 1) % 2 ^ 64 else s.version db key := by
  unfold version
  rw [h]
  cases b with
  | false => rfl
  | true =>
    unfold bumpIf
    rw [if_pos rfl]
    by_cases hi : shardIdx F key = shardIdx F key'
    · have hon : (s.counters (shardIdx F key')).on = true := hi ▸ hw
      rw [hi, Function.update_self]
      unfold Counters.bump
      rw [if_pos hon]
      simp only
      by_cases hdb : db = db'
      · subst hdb
        rw [Function.update_self, Std.ExtTreeMap.getElem?_insert]
        by_cases hk : key = key'
        · subst hk
          simp
        · have hc : compare key' key ≠ .eq := fun hc => hk (Std.LawfulEqCmp.eq_of_compare hc).symm
          simp [hk, hc]
      · rw [Function.update_of_ne hdb, if_neg (fun hc => hdb hc.2.1)]
    · rw [Function.update_of_ne hi, if_neg (fun hc => hi (by rw [hc.2.2]))]

theorem epoch_bumpIf {s s' : KvStore F} {db db' : Int} {key key' : Bytes} {b : Bool}
    (h : s'.counters = bumpIf F s.counters db' key' b) : s'.epoch db key = s.epoch db key := by
  unfold epoch
  rw [h]
  unfold bumpIf
  split
  · by_cases hi : shardIdx F key = shardIdx F key'
    · rw [hi, Function.update_self]
      unfold Counters.bump
      split <;> rfl
    · rw [Function.update_of_ne hi]
  · rfl

theorem watching_bumpIf {s s' : KvStore F} {db' : Int} {key key' : Bytes} {b : Bool}
    (h : s'.counters = bumpIf F s.counters db' key' b) (hw : s.Watching key) : s'.Watching key := by
  unfold Watching at hw ⊢
  rw [h]
  unfold bumpIf
  split
  · by_cases hi : shardIdx F key = shardIdx F key'
    · rw [hi, Function.update_self]
      rw [hi] at hw
      unfold Counters.bump
      split <;> exact hw
    · rw [Function.update_of_ne hi]
      exact hw
  · exact hw

theorem counted_congr {s s' : KvStore F} (h : s'.counters = s.counters) (db : Int) (key : Bytes) :
    s'.version db key = s.version db key ∧ s'.epoch db key = s.epoch db key ∧
      (s'.Watching key ↔ s.Watching key) := by
  unfold version epoch Watching
  rw [h]
  exact ⟨rfl, rfl, Iff.rfl⟩

theorem token_eq (s : KvStore F) (db : Int) (key : Bytes) :
    s.token db key = ((s.epoch db key <<< 32) % 2 ^ 64) ^^^ s.version db key := rfl

omit [Platform F] in
theorem packed {e v : Nat} (he : e < 2 ^ 32) (hv : v < 2 ^ 32) :
    (((e <<< 32) % 2 ^ 64) ^^^ v) % 2 ^ 32 = v ∧ (((e <<< 32) % 2 ^ 64) ^^^ v) >>> 32 = e := by
  have hlt : e <<< 32 < 2 ^ 64 := by
    rw [Nat.shiftLeft_eq]
    omega
  rw [Nat.mod_eq_of_lt hlt]
  constructor
  · rw [Nat.xor_mod_two_pow, Nat.shiftLeft_eq, Nat.mul_mod_left, Nat.mod_eq_of_lt hv, Nat.zero_xor]
  · rw [Nat.shiftRight_xor_distrib, Nat.shiftLeft_shiftRight, Nat.shiftRight_eq_div_pow v,
      Nat.div_eq_of_lt hv, Nat.xor_zero]

theorem token_inj {s s' : KvStore F} {db : Int} {key : Bytes} (h : s.Counted db key)
    (h' : s'.Counted db key) (ht : s.token db key = s'.token db key) :
    s.version db key = s'.version db key ∧ s.epoch db key = s'.epoch db key := by
  obtain ⟨hv, he⟩ := h
  obtain ⟨hv', he'⟩ := h'
  rw [token_eq, token_eq] at ht
  have hlow := (packed he hv).1
  have hhigh := (packed he hv).2
  rw [ht] at hlow hhigh
  rw [(packed he' hv').1] at hlow
  rw [(packed he' hv').2] at hhigh
  exact ⟨hlow.symm, hhigh.symm⟩

end KvStore

/-! ## Noticing changes -/

/-- If the key's contents changed at `now` then version or epoch did, and these advance by at most
`n` together. -/
structure Noted (db : Int) (key : Bytes) (now : Int) (n : Nat) (s s' : KvStore F) : Prop where
  watching : s'.Watching key
  version : s.version db key ≤ s'.version db key
  epoch : s.epoch db key ≤ s'.epoch db key
  bound : s'.version db key + s'.epoch db key ≤ s.version db key + s.epoch db key + n
  content : s'.version db key = s.version db key → s'.epoch db key = s.epoch db key →
    s'.content now db key = s.content now db key

namespace Noted

variable {db : Int} {key : Bytes} {now : Int} {n n' : Nat} {s s' s'' : KvStore F}

theorem refl (h : s.Watching key) : Noted db key now 0 s s :=
  ⟨h, le_rfl, le_rfl, le_rfl, fun _ _ => rfl⟩

theorem mono (h : Noted db key now n s s') (hn : n ≤ n') : Noted db key now n' s s' :=
  { h with bound := h.bound.trans (by omega) }

theorem trans (h : Noted db key now n s s') (h' : Noted db key now n' s' s'') :
    Noted db key now (n + n') s s'' where
  watching := h'.watching
  version := h.version.trans h'.version
  epoch := h.epoch.trans h'.epoch
  bound := by
    have h1 := h.bound
    have h2 := h'.bound
    omega
  content := by
    intro hv he
    have h1 := h.version
    have h2 := h'.version
    have h3 := h.epoch
    have h4 := h'.epoch
    rw [h'.content (by omega) (by omega), h.content (by omega) (by omega)]

end Noted

end Kv
