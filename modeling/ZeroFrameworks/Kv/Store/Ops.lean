import ZeroFrameworks.Kv.Persistence.Rdb
import ZeroFrameworks.Kv.Store.OrderlyDbs
import ZeroFrameworks.Kv.Store.OrderlyTypes

/-!
# The operations of the store

`KvOp F α` lists the public operations of `KvStore`, with what an RDB load does to the store, by the
type `α` of what they return; `runOp` is what each of them does.  A `Call` is an operation with the
`Env` it meets, and `runCalls` makes one call after the other.

`orderly` says of every operation what the results about runs of calls are built on.  Beside the
operation itself it depends on

    op.shown     the reply, but for `purgeExpiredActive`, which tells how many entries had expired
    op.Shape     what is kept of values: `Obj.Shaped`, but for RESTORE and a load
    op.Exempt    the keys that may change without WATCH being told
    op.cost      a bound on what is counted for a key
-/

namespace Kv

variable {F : Type} {α : Type}

/-! ## The operations -/

/-- The public operations of `KvStore`. -/
inductive KvOp (F : Type) : Type → Type 1 where
  -- strings
  | get (db : Int) (key : Bytes) : KvOp F (Except Bytes (Option Bytes))
  | set (db : Int) (key value : Bytes) : KvOp F Bool
  | setex (db : Int) (key value : Bytes) (ttlSeconds : Int) : KvOp F Bool
  | setOpt (db : Int) (key value : Bytes) (nx xx : Bool) (exSeconds pxMilliseconds : Int) : KvOp F Bool
  | getset (db : Int) (key value : Bytes) : KvOp F (Except Bytes (Option Bytes))
  | getdel (db : Int) (key : Bytes) : KvOp F (Except Bytes (Option Bytes))
  | getex (db : Int) (key : Bytes) (exSeconds pxMilliseconds : Int) (persist : Bool) :
      KvOp F (Except Bytes (Option Bytes))
  | incrBy (db : Int) (key : Bytes) (delta : Int) : KvOp F (Except Bytes Int)
  | incrByFloat (db : Int) (key : Bytes) (delta : F) : KvOp F (Except Bytes Bytes)
  | msetnx (db : Int) (pairs : List (Bytes × Bytes)) : KvOp F Bool
  | append (db : Int) (key value : Bytes) : KvOp F (Except Bytes Int)
  | strlen (db : Int) (key : Bytes) : KvOp F (Except Bytes Int)
  -- keys
  | exist (db : Int) (key : Bytes) : KvOp F Bool
  | existsMany (db : Int) (keys : List Bytes) : KvOp F Int
  | type (db : Int) (key : Bytes) : KvOp F Bytes
  | del (db : Int) (key : Bytes) : KvOp F Bool
  | delMany (db : Int) (keys : List Bytes) : KvOp F Int
  | renameKey (db : Int) (src dst : Bytes) (nx : Bool) : KvOp F (Except Bytes Bool)
  | persist (db : Int) (key : Bytes) : KvOp F Int
  | expire (db : Int) (key : Bytes) (seconds : Int) : KvOp F Int
  | pexpire (db : Int) (key : Bytes) (milliseconds : Int) : KvOp F Int
  | expireAt (db : Int) (key : Bytes) (unixSec : Int) : KvOp F Int
  | pexpireAt (db : Int) (key : Bytes) (unixMs : Int) : KvOp F Int
  | ttl (db : Int) (key : Bytes) : KvOp F Int
  | pttl (db : Int) (key : Bytes) : KvOp F Int
  | dumpKey (db : Int) (key : Bytes) : KvOp F (Option Bytes)
  | restoreKey (db : Int) (key : Bytes) (ttlMs : Int) (payload : Bytes) (replace : Bool) :
      KvOp F (Except Bytes Unit)
  | watchToken (db : Int) (key : Bytes) : KvOp F Nat
  -- databases
  | dbsize (db : Int) : KvOp F Int
  | expireCount (db : Int) : KvOp F Int
  | keys (db : Int) (pattern : Bytes) : KvOp F (List Bytes)
  | scan (db : Int) (cursor : Nat) (pattern : Bytes) (count : Int) : KvOp F (Nat × List Bytes)
  | flushdb (db : Int) : KvOp F Unit
  | flushall : KvOp F Unit
  | purgeExpiredActive (maxScan : Int) : KvOp F Int
  -- hashes
  | hset (db : Int) (key field value : Bytes) : KvOp F (Except Bytes Int)
  | hsetnx (db : Int) (key field value : Bytes) : KvOp F (Except Bytes Bool)
  | hsetFields (db : Int) (key : Bytes) (fields : List (Bytes × Bytes)) : KvOp F (Except Bytes Int)
  | hmset (db : Int) (key : Bytes) (fields : List (Bytes × Bytes)) : KvOp F (Except Bytes Unit)
  | hget (db : Int) (key field : Bytes) : KvOp F (Except Bytes (Option Bytes))
  | hmget (db : Int) (key : Bytes) (fields : List Bytes) : KvOp F (Except Bytes (List (Option Bytes)))
  | hdel (db : Int) (key field : Bytes) : KvOp F (Except Bytes Int)
  | hexists (db : Int) (key field : Bytes) : KvOp F (Except Bytes Bool)
  | hlen (db : Int) (key : Bytes) : KvOp F (Except Bytes (Option Int))
  | hgetall (db : Int) (key : Bytes) : KvOp F (Except Bytes (Option (List (Bytes × Bytes))))
  | hkeys (db : Int) (key : Bytes) : KvOp F (Except Bytes (List Bytes))
  | hvals (db : Int) (key : Bytes) : KvOp F (Except Bytes (List Bytes))
  | hincrby (db : Int) (key field : Bytes) (delta : Int) : KvOp F (Except Bytes Int)
  | hscan (db : Int) (key : Bytes) (cursor : Nat) (pattern : Bytes) (count : Int) :
      KvOp F (Except Bytes (Nat × List Bytes))
  -- lists
  | listPush (db : Int) (key : Bytes) (values : List Bytes) (left : Bool) : KvOp F (Except Bytes Int)
  | listPop (db : Int) (key : Bytes) (left : Bool) : KvOp F (Except Bytes (Option Bytes))
  | listLen (db : Int) (key : Bytes) : KvOp F (Except Bytes (Option Int))
  | listRange (db : Int) (key : Bytes) (start stop : Int) : KvOp F (Except Bytes (List Bytes))
  | listIndex (db : Int) (key : Bytes) (index : Int) : KvOp F (Except Bytes (Option Bytes))
  | listTrim (db : Int) (key : Bytes) (start stop : Int) : KvOp F (Except Bytes Int)
  | listSet (db : Int) (key : Bytes) (index : Int) (value : Bytes) : KvOp F (Except Bytes Unit)
  | listRem (db : Int) (key : Bytes) (count : Int) (value : Bytes) : KvOp F (Except Bytes Int)
  | listInsert (db : Int) (key : Bytes) (before : Bool) (pivot value : Bytes) : KvOp F (Except Bytes Int)
  | listRPopLPush (db : Int) (src dst : Bytes) : KvOp F (Except Bytes (Option Bytes))
  -- sets
  | setAdd (db : Int) (key : Bytes) (members : List Bytes) : KvOp F (Except Bytes Int)
  | setRem (db : Int) (key : Bytes) (members : List Bytes) : KvOp F (Except Bytes Int)
  | setMembers (db : Int) (key : Bytes) : KvOp F (Except Bytes (List Bytes))
  | setCard (db : Int) (key : Bytes) : KvOp F (Except Bytes (Option Int))
  | setIsMember (db : Int) (key member : Bytes) : KvOp F (Except Bytes Bool)
  | sscan (db : Int) (key : Bytes) (cursor : Nat) (pattern : Bytes) (count : Int) :
      KvOp F (Except Bytes (Nat × List Bytes))
  | spop (db : Int) (key : Bytes) : KvOp F (Except Bytes (Option Bytes))
  | setInter (db : Int) (keys : List Bytes) : KvOp F (Except Bytes (List Bytes))
  | setUnion (db : Int) (keys : List Bytes) : KvOp F (Except Bytes (List Bytes))
  | setDiff (db : Int) (keys : List Bytes) : KvOp F (Except Bytes (List Bytes))
  | setInterStore (db : Int) (dest : Bytes) (keys : List Bytes) : KvOp F (Except Bytes Int)
  | setUnionStore (db : Int) (dest : Bytes) (keys : List Bytes) : KvOp F (Except Bytes Int)
  | setDiffStore (db : Int) (dest : Bytes) (keys : List Bytes) : KvOp F (Except Bytes Int)
  -- sorted sets
  | zadd (db : Int) (key : Bytes) (members : List (F × Bytes)) : KvOp F (Except Bytes Int)
  | zaddOpt (db : Int) (key : Bytes) (opt : ZaddOptions) (members : List (F × Bytes)) :
      KvOp F (Except Bytes Int)
  | zrem (db : Int) (key : Bytes) (members : List Bytes) : KvOp F (Except Bytes Int)
  | zscore (db : Int) (key member : Bytes) : KvOp F (Except Bytes (Option F))
  | zcard (db : Int) (key : Bytes) : KvOp F (Except Bytes (Option Int))
  | zrange (db : Int) (key : Bytes) (start stop : Int) (reverse : Bool) :
      KvOp F (Except Bytes (List (Bytes × F)))
  | zrangeByScore (db : Int) (key min max : Bytes) (reverse : Bool) (offset count : Int) :
      KvOp F (Except Bytes (List (Bytes × F)))
  | zcount (db : Int) (key min max : Bytes) : KvOp F (Except Bytes Int)
  | zincrby (db : Int) (key member : Bytes) (increment : F) : KvOp F (Except Bytes F)
  | zrank (db : Int) (key member : Bytes) (reverse : Bool) : KvOp F (Except Bytes (Option Int))
  | zpopmin (db : Int) (key : Bytes) : KvOp F (Except Bytes (Option (Bytes × F)))
  | zpopmax (db : Int) (key : Bytes) : KvOp F (Except Bytes (Option (Bytes × F)))
  | zscan (db : Int) (key : Bytes) (cursor : Nat) (pattern : Bytes) (count : Int) :
      KvOp F (Except Bytes (Nat × List Bytes))
  -- streams
  | xadd (db : Int) (key id : Bytes) (fields : List (Bytes × Bytes)) : KvOp F (Except Bytes Bytes)
  | xlen (db : Int) (key : Bytes) : KvOp F (Except Bytes (Option Int))
  | xrange (db : Int) (key start stop : Bytes) (count : Int) (reverse : Bool) :
      KvOp F (Except Bytes (List StreamEntry))
  | xdel (db : Int) (key : Bytes) (ids : List Bytes) : KvOp F (Except Bytes Int)
  | xtrim (db : Int) (key : Bytes) (maxlen : Int) : KvOp F (Except Bytes Int)
  | xread (db : Int) (keys ids : List Bytes) (count : Int) :
      KvOp F (Except Bytes (List (Bytes × List StreamEntry)))
  | xgroupCreate (db : Int) (key group id : Bytes) (mkstream : Bool) : KvOp F (Except Bytes Unit)
  | xgroupDestroy (db : Int) (key group : Bytes) : KvOp F (Except Bytes Unit)
  | xreadGroup (db : Int) (group consumer : Bytes) (keys ids : List Bytes) (count : Int) :
      KvOp F (Except Bytes (List (Bytes × List StreamEntry)))
  | xack (db : Int) (key group : Bytes) (ids : List Bytes) : KvOp F (Except Bytes Int)
  | xpendingSummary (db : Int) (key group : Bytes) : KvOp F (Except Bytes XPendingSummary)
  | xpendingRange (db : Int) (key group start stop : Bytes) (count : Int) (only : Bytes) :
      KvOp F (Except Bytes (List XPendingDetail))
  | xclaim (db : Int) (key group consumer : Bytes) (minIdleMs : Int) (ids : List Bytes) (force : Bool) :
      KvOp F (Except Bytes (List StreamEntry))
  -- settings
  | setMaxMemory (bytes : Int) : KvOp F Unit
  | maxMemory : KvOp F Int
  | setMaxMemoryPolicy (policy : Bytes) : KvOp F Unit
  | maxMemoryPolicy : KvOp F Bytes
  | usedMemoryApprox : KvOp F Int
  | setRdbPath (path : Bytes) : KvOp F Unit
  | getRdbPath : KvOp F Bytes
  /-- `written`: whether the file system took the snapshot. -/
  | saveRdb (written : Bool) : KvOp F Bool
  | lastSaveUnixSec : KvOp F Int
  /-- `Rdb::loadFromString`, on which `loadRdb` rests. -/
  | loadFromString (data : Bytes) : KvOp F (Except Bytes Unit)

variable [Platform F]

namespace KvStore

/-- Changing the settings. -/
def setConf (f : Env → StoreConf → StoreConf) : StoreM F Unit := fun env s =>
  ((), { s with conf := f env s.conf })

/-- What an operation does. -/
def runOp : KvOp F α → StoreM F α
  | .get db key => get db key
  | .set db key value => set db key value
  | .setex db key value ttl => setex db key value ttl
  | .setOpt db key value nx xx ex px => setOpt db key value nx xx ex px
  | .getset db key value => getset db key value
  | .getdel db key => getdel db key
  | .getex db key ex px persist => getex db key ex px persist
  | .incrBy db key delta => incrBy db key delta
  | .incrByFloat db key delta => incrByFloat db key delta
  | .msetnx db pairs => msetnx db pairs
  | .append db key value => append db key value
  | .strlen db key => strlen db key
  | .exist db key => exist db key
  | .existsMany db keys => existsMany db keys
  | .type db key => type db key
  | .del db key => del db key
  | .delMany db keys => delMany db keys
  | .renameKey db src dst nx => renameKey db src dst nx
  | .persist db key => persist db key
  | .expire db key n => expire db key n
  | .pexpire db key n => pexpire db key n
  | .expireAt db key n => expireAt db key n
  | .pexpireAt db key n => pexpireAt db key n
  | .ttl db key => ttl db key
  | .pttl db key => pttl db key
  | .dumpKey db key => dumpKey db key
  | .restoreKey db key ttl payload replace => restoreKey db key ttl payload replace
  | .watchToken db key => watchToken db key
  | .dbsize db => dbsize db
  | .expireCount db => expireCount db
  | .keys db pattern => keys db pattern
  | .scan db cursor pattern count => scan db cursor pattern count
  | .flushdb db => flushdb db
  | .flushall => flushall
  | .purgeExpiredActive maxScan => purgeExpiredActive maxScan
  | .hset db key field value => hset db key field value
  | .hsetnx db key field value => hsetnx db key field value
  | .hsetFields db key fields => hsetFields db key fields
  | .hmset db key fields => hmset db key fields
  | .hget db key field => hget db key field
  | .hmget db key fields => hmget db key fields
  | .hdel db key field => hdel db key field
  | .hexists db key field => hexists db key field
  | .hlen db key => hlen db key
  | .hgetall db key => hgetall db key
  | .hkeys db key => hkeys db key
  | .hvals db key => hvals db key
  | .hincrby db key field delta => hincrby db key field delta
  | .hscan db key cursor pattern count => hscan db key cursor pattern count
  | .listPush db key values left => listPush db key values left
  | .listPop db key left => listPop db key left
  | .listLen db key => listLen db key
  | .listRange db key start stop => listRange db key start stop
  | .listIndex db key index => listIndex db key index
  | .listTrim db key start stop => listTrim db key start stop
  | .listSet db key index value => listSet db key index value
  | .listRem db key count value => listRem db key count value
  | .listInsert db key before pivot value => listInsert db key before pivot value
  | .listRPopLPush db src dst => listRPopLPush db src dst
  | .setAdd db key members => setAdd db key members
  | .setRem db key members => setRem db key members
  | .setMembers db key => setMembers db key
  | .setCard db key => setCard db key
  | .setIsMember db key member => setIsMember db key member
  | .sscan db key cursor pattern count => sscan db key cursor pattern count
  | .spop db key => spop db key
  | .setInter db keys => setInter db keys
  | .setUnion db keys => setUnion db keys
  | .setDiff db keys => setDiff db keys
  | .setInterStore db dest keys => setInterStore db dest keys
  | .setUnionStore db dest keys => setUnionStore db dest keys
  | .setDiffStore db dest keys => setDiffStore db dest keys
  | .zadd db key members => zadd db key members
  | .zaddOpt db key opt members => zaddOpt db key opt members
  | .zrem db key members => zrem db key members
  | .zscore db key member => zscore db key member
  | .zcard db key => zcard db key
  | .zrange db key start stop reverse => zrange db key start stop reverse
  | .zrangeByScore db key min max reverse offset count => zrangeByScore db key min max reverse offset count
  | .zcount db key min max => zcount db key min max
  | .zincrby db key member increment => zincrby db key member increment
  | .zrank db key member reverse => zrank db key member reverse
  | .zpopmin db key => zpopmin db key
  | .zpopmax db key => zpopmax db key
  | .zscan db key cursor pattern count => zscan db key cursor pattern count
  | .xadd db key id fields => xadd db key id fields
  | .xlen db key => xlen db key
  | .xrange db key start stop count reverse => xrange db key start stop count reverse
  | .xdel db key ids => xdel db key ids
  | .xtrim db key maxlen => xtrim db key maxlen
  | .xread db keys ids count => xread db keys ids count
  | .xgroupCreate db key group id mkstream => xgroupCreate db key group id mkstream
  | .xgroupDestroy db key group => xgroupDestroy db key group
  | .xreadGroup db group consumer keys ids count => xreadGroup db group consumer keys ids count
  | .xack db key group ids => xack db key group ids
  | .xpendingSummary db key group => xpendingSummary db key group
  | .xpendingRange db key group start stop count only => xpendingRange db key group start stop count only
  | .xclaim db key group consumer minIdleMs ids force => xclaim db key group consumer minIdleMs ids force
  | .setMaxMemory bytes => setMaxMemory bytes
  | .maxMemory => fun _ s => (s.conf.maxmemory, s)
  | .setMaxMemoryPolicy policy => setMaxMemoryPolicy policy
  | .maxMemoryPolicy => fun _ s => (s.conf.maxmemoryPolicy, s)
  | .usedMemoryApprox => fun env s => (s.usedMemory env, s)
  | .setRdbPath path => setConf fun _ c => { c with rdbPath := path }
  | .getRdbPath => fun _ s => (s.conf.rdbPath, s)
  | .saveRdb written =>
    if written then do
      setConf fun env c => { c with lastSaveSec := env.now.tdiv 1000 }
      pure true
    else pure false
  | .lastSaveUnixSec => fun _ s => (s.conf.lastSaveSec, s)
  | .loadFromString data => loadFromString data

end KvStore

namespace KvOp

/-- The operation sets a memory limit. -/
def Limits : KvOp F α → Prop
  | .setMaxMemory bytes => 0 < bytes
  | _ => False

/-- What is kept of values. -/
def Shape : KvOp F α → Obj F → Prop
  | .restoreKey .. | .loadFromString _ => fun _ => True
  | _ => Obj.Shaped

/-- The keys that may change without WATCH being told. -/
def Exempt : KvOp F α → Int → Bytes → Prop
  | .persist db key | .expire db key _ | .pexpire db key _ | .expireAt db key _ | .pexpireAt db key _
  | .ttl db key | .pttl db key => KvStore.At db key
  | .renameKey db src dst _ => KvStore.RenameTo F db src dst
  | .xadd db key id _ => KvStore.XaddRefused db key id
  | .xreadGroup db _ _ names _ _ => KvStore.AtAny db names
  | .loadFromString _ => fun _ _ => True
  | _ => fun _ _ => False

/-- A bound on how far version and epoch of a key advance. -/
def cost : KvOp F α → Nat
  | .set .. | .setex .. | .setOpt .. | .getdel .. | .getex .. | .append .. | .hincrby .. | .listRPopLPush ..
  | .spop .. | .zpopmin .. | .zpopmax .. | .xadd .. => 2
  | .getset .. => 3
  | .renameKey .. => 5
  | .msetnx _ pairs => 2 * pairs.length
  | .hmset _ _ fields => fields.length
  | .existsMany _ names | .delMany _ names | .hmget _ _ names | .setInter _ names | .setUnion _ names
  | .setDiff _ names | .xread _ names _ _ | .xreadGroup _ _ _ names _ _ => names.length
  | .setInterStore _ _ names | .setUnionStore _ _ names | .setDiffStore _ _ names => names.length + 1
  | _ => 1

/-- The reply, but for the number of expired entries that were purged. -/
def shown : KvOp F α → α → Option α
  | .purgeExpiredActive _ => fun _ => none
  | _ => some

end KvOp

namespace KvStore

/-! ## Lemmas -/

variable {P : Obj F → Prop} {X : Int → Bytes → Prop}

theorem orderly_setConf {f : Env → StoreConf → StoreConf}
    (hf : ∀ env c, c.maxmemory ≤ 0 → (f env c).maxmemory ≤ 0) :
    Orderly P X 0 (setConf f : StoreM F Unit) where
  alike env s t h := by
    refine ⟨rfl, ?_, hf env s.conf h.unlimited, h.counters, h.view⟩
    unfold setConf
    simp only [h.conf]
  keeps env s h := h
  noted env s db key _ _ hw _ := ⟨hw, le_rfl, le_rfl, le_rfl, fun _ _ => rfl⟩

theorem orderly_setMaxMemory {bytes : Int} (h : bytes ≤ 0) :
    Orderly P X 0 (setMaxMemory bytes : StoreM F Unit) := by
  have hf : ∀ (_ : Env) (c : StoreConf), c.maxmemory ≤ 0 →
      ({ c with maxmemory := if 0 < bytes then bytes else 0 } : StoreConf).maxmemory ≤ 0 := by
    intro _ c _
    simp only
    rw [if_neg (by omega)]
  exact orderly_setConf hf

theorem orderly_setMaxMemoryPolicy {policy : Bytes} :
    Orderly P X 0 (setMaxMemoryPolicy policy : StoreM F Unit) := by
  have hf : ∀ (_ : Env) (c : StoreConf), c.maxmemory ≤ 0 → ({ c with
      maxmemoryPolicy := if policy.isEmpty then lit "noeviction" else policy } : StoreConf).maxmemory ≤ 0 :=
    fun _ _ hc => hc
  exact orderly_setConf hf

theorem orderly_dumpKey {db : Int} {key : Bytes} : Orderly P X 0 (dumpKey db key : StoreM F _) := by
  refine .withEnv fun env => .peek fun o => ?_
  rcases o with _ | ⟨⟨t, _⟩, _⟩
  · rfl
  · cases t <;> rfl

theorem orderly_restoreKey {db : Int} {key : Bytes} {ttl : Int} {payload : Bytes} {replace : Bool} :
    Orderly (fun _ => True) X 1 (restoreKey db key ttl payload replace : StoreM F _) := by
  unfold restoreKey
  split
  · exact (Orderly.pure _).mono (by decide)
  · refine .withEnv fun env => .onEntry ⟨fun old => ?_, fun _ _ _ _ => trivial, fun _ old => ?_⟩
    · cases old <;> cases replace <;> rfl
    · unfold restoreBody
      split
      · exact .inr rfl
      · exact .inl rfl

/-- What is loaded does not depend on what was there. -/
theorem item_install (entries : List (Int × Bytes × Item F)) (s t : KvStore F) :
    (s.install entries).item = (t.install entries).item := by
  have hfold : ∀ (l : List (Int × Bytes × Item F)) (s t : KvStore F),
      (∀ db key, s.entry db key = t.entry db key) → ∀ db key,
      (l.foldl (fun s e => s.putEntry e.1 e.2.1 (some { e.2.2 with })) s).entry db key =
        (l.foldl (fun s e => s.putEntry e.1 e.2.1 (some { e.2.2 with })) t).entry db key := by
    intro l
    induction l with
    | nil => exact fun s t h => h
    | cons e l ih =>
      intro s t h
      refine ih _ _ fun db key => ?_
      rw [entry_putEntry, entry_putEntry, h]
  funext db key
  unfold item install
  rw [hfold entries s.cleared t.cleared fun _ _ => rfl]

theorem counters_install (entries : List (Int × Bytes × Item F)) (s : KvStore F) :
    (s.install entries).counters = fun i => { s.counters i with versions := fun _ => ∅ } := by
  have hfold : ∀ (l : List (Int × Bytes × Item F)) (s : KvStore F),
      (l.foldl (fun s e => s.putEntry e.1 e.2.1 (some { e.2.2 with })) s).counters = s.counters := by
    intro l
    induction l with
    | nil => exact fun s => rfl
    | cons e l ih => exact fun s => (ih _).trans (counters_putEntry ..)
  exact hfold entries s.cleared

theorem conf_install (entries : List (Int × Bytes × Item F)) (s : KvStore F) :
    (s.install entries).conf = s.conf := by
  have hfold : ∀ (l : List (Int × Bytes × Item F)) (s : KvStore F),
      (l.foldl (fun s e => s.putEntry e.1 e.2.1 (some { e.2.2 with })) s).conf = s.conf := by
    intro l
    induction l with
    | nil => exact fun s => rfl
    | cons e l ih => exact fun s => ih _
  exact hfold entries s.cleared

theorem alike_install {now : Int} (entries : List (Int × Bytes × Item F)) {s t : KvStore F}
    (h : SameView now s t) : SameView now (s.install entries) (t.install entries) := by
  refine ⟨?_, ?_, ?_, ?_⟩
  · rw [conf_install, conf_install, h.conf]
  · rw [conf_install]
    exact h.unlimited
  · rw [counters_install, counters_install, h.counters]
  · unfold view live
    rw [item_install entries s t]

theorem orderly_loadFromString {data : Bytes} :
    Orderly (fun _ => True) (fun _ _ => True) 1 (loadFromString data : StoreM F _) where
  alike env s t h := by
    unfold loadFromString
    split
    · exact ⟨rfl, h⟩
    · split
      · unfold loadBinaryV2
        split
        · exact ⟨rfl, h⟩
        · exact ⟨rfl, alike_install _ h⟩
      · unfold loadFromJsonV1
        split
        · exact ⟨rfl, h⟩
        · exact ⟨rfl, alike_install _ h⟩
  keeps _ _ _ _ _ _ _ := trivial
  noted _ _ _ _ _ hx := absurd trivial hx

theorem orderly_conf (f : StoreConf → α) : Orderly P X 0 (fun _ s => (f s.conf, s) : StoreM F α) :=
  .gets fun _ _ _ h => by rw [h.conf]

theorem orderly_free {m : StoreM F α} {β : Type} {f : α → β} (h : Orderly P X 0 m) :
    Orderly P X 1 (f <$> m) := h.map.mono (Nat.zero_le 1)

theorem orderly_runOp (op : KvOp F α) (h : ¬op.Limits) :
    Orderly op.Shape op.Exempt op.cost (op.shown <$> runOp op) := by
  cases op with
  | get => exact orderly_get.map
  | set => exact orderly_setOpt.map
  | setex => exact orderly_setOpt.map
  | setOpt => exact orderly_setOpt.map
  | getset => exact orderly_getset.map
  | getdel => exact orderly_getdel.map
  | getex => exact orderly_getex.map
  | incrBy => exact orderly_incrBy.map
  | incrByFloat => exact orderly_incrByFloat.map
  | msetnx => exact orderly_msetnx.map
  | append => exact orderly_append.map
  | strlen => exact orderly_strlen.map
  | exist => exact orderly_exist.map
  | existsMany => exact orderly_existsMany.map
  | type => exact orderly_type.map
  | del => exact orderly_del.map
  | delMany => exact orderly_delMany.map
  | renameKey => exact orderly_renameKey.map
  | persist => exact orderly_persist.map
  | expire => exact orderly_expire.map
  | pexpire => exact orderly_pexpire.map
  | expireAt => exact orderly_expireAt.map
  | pexpireAt => exact orderly_pexpireAt.map
  | ttl => exact orderly_ttlWith.map
  | pttl => exact orderly_ttlWith.map
  | dumpKey => exact orderly_free orderly_dumpKey
  | restoreKey => exact orderly_restoreKey.map
  | watchToken => exact orderly_free orderly_watchToken
  | dbsize => exact orderly_free orderly_dbsize
  | expireCount => exact orderly_free orderly_expireCount
  | keys => exact orderly_free orderly_keys
  | scan => exact orderly_free orderly_scan
  | flushdb => exact orderly_flushdb.map
  | flushall => exact orderly_flushall.map
  | purgeExpiredActive maxScan =>
    have h : Orderly Obj.Shaped (fun _ _ => False) 1 ((fun _ => none) <$> (fun _ => ()) <$>
      purgeExpiredActive maxScan : StoreM F (Option Int)) := orderly_free orderly_purgeExpiredActive
    exact h
  | hset => exact orderly_hset.map
  | hsetnx => exact orderly_hsetnx.map
  | hsetFields => exact orderly_hsetFields.map
  | hmset => exact orderly_hmset.map
  | hget => exact orderly_hget.map
  | hmget => exact orderly_hmget.map
  | hdel => exact orderly_hdel.map
  | hexists => exact orderly_hexists.map
  | hlen => exact orderly_hlen.map
  | hgetall => exact orderly_hgetall.map
  | hkeys => exact orderly_hkeys.map
  | hvals => exact orderly_hvals.map
  | hincrby => exact orderly_hincrby.map
  | hscan => exact orderly_hscan.map
  | listPush => exact orderly_listPush.map
  | listPop => exact orderly_listPop.map
  | listLen => exact orderly_listLen.map
  | listRange => exact orderly_listRange.map
  | listIndex => exact orderly_listIndex.map
  | listTrim => exact orderly_listTrim.map
  | listSet => exact orderly_listSet.map
  | listRem => exact orderly_listRem.map
  | listInsert => exact orderly_listInsert.map
  | listRPopLPush => exact orderly_listRPopLPush.map
  | setAdd => exact orderly_setAdd.map
  | setRem => exact orderly_setRem.map
  | setMembers => exact orderly_setMembers.map
  | setCard => exact orderly_setCard.map
  | setIsMember => exact orderly_setIsMember.map
  | sscan => exact orderly_sscan.map
  | spop => exact orderly_spop.map
  | setInter => exact orderly_setInter.map
  | setUnion => exact orderly_setUnion.map
  | setDiff => exact orderly_setDiff.map
  | setInterStore => exact orderly_setInterStore.map
  | setUnionStore => exact orderly_setUnionStore.map
  | setDiffStore => exact orderly_setDiffStore.map
  | zadd => exact orderly_zadd.map
  | zaddOpt => exact orderly_zaddOpt.map
  | zrem => exact orderly_zrem.map
  | zscore => exact orderly_zscore.map
  | zcard => exact orderly_zcard.map
  | zrange => exact orderly_zrange.map
  | zrangeByScore => exact orderly_zrangeByScore.map
  | zcount => exact orderly_zcount.map
  | zincrby => exact orderly_zincrby.map
  | zrank => exact orderly_zrank.map
  | zpopmin => exact orderly_zpopBest.map
  | zpopmax => exact orderly_zpopBest.map
  | zscan => exact orderly_zscan.map
  | xadd => exact orderly_xadd.map
  | xlen => exact orderly_xlen.map
  | xrange => exact orderly_xrange.map
  | xdel => exact orderly_xdel.map
  | xtrim => exact orderly_xtrim.map
  | xread => exact orderly_xread.map
  | xgroupCreate => exact orderly_xgroupCreate.map
  | xgroupDestroy => exact orderly_xgroupDestroy.map
  | xreadGroup => exact orderly_xreadGroup.map
  | xack => exact orderly_xack.map
  | xpendingSummary => exact orderly_xpendingSummary.map
  | xpendingRange => exact orderly_xpendingRange.map
  | xclaim => exact orderly_xclaim.map
  | setMaxMemory => exact orderly_free (orderly_setMaxMemory (Int.not_lt.mp h))
  | maxMemory => exact orderly_free (orderly_conf _)
  | setMaxMemoryPolicy => exact orderly_free orderly_setMaxMemoryPolicy
  | maxMemoryPolicy => exact orderly_free (orderly_conf _)
  | usedMemoryApprox => exact orderly_free orderly_usedMemory
  | setRdbPath path =>
    have hf : ∀ (_ : Env) (c : StoreConf), c.maxmemory ≤ 0 →
        ({ c with rdbPath := path } : StoreConf).maxmemory ≤ 0 := fun _ _ hc => hc
    exact orderly_free (orderly_setConf hf)
  | getRdbPath => exact orderly_free (orderly_conf _)
  | saveRdb written =>
    cases written with
    | false => exact orderly_free (.pure _)
    | true =>
      have hf : ∀ (env : Env) (c : StoreConf), c.maxmemory ≤ 0 →
          ({ c with lastSaveSec := env.now.tdiv 1000 } : StoreConf).maxmemory ≤ 0 := fun _ _ hc => hc
      exact orderly_free (.bind (n := 0) (k := 0) (orderly_setConf hf) fun _ => .pure _)
  | lastSaveUnixSec => exact orderly_free (orderly_conf _)
  | loadFromString => exact orderly_loadFromString.map

end KvStore

end Kv
