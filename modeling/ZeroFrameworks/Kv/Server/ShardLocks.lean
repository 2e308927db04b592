import ZeroFrameworks.Kv.Server.Dispatch
import ZeroFrameworks.Lib.Locks

/-!
# Who holds a shard's lock

Which shard locks a request takes, in which order.  An operation of the store is a sequence of guards on
one shard or on all sixteen, with nothing locked inside (`StoreOp.guards`); a handler calls some operations
one after the other.  Only `LuaEngine::eval` holds locks around something else: with `lua-global-atomic` it
takes all shards before the script runs and gives them back after it, if the setting is on by then.

A request asks for a lock it holds, or gives back one it does not hold, if and only if a handler that looks
at the store is reached between the two, or the setting is changed in between:

    LockRun env req ctx sv es → (Disciplined ∅ es ↔ LeftAlone false (lockPieces env req ctx sv))
        (disciplined_iff_leftAlone)
-/

namespace Kv

variable {F : Type} [Platform F]

open Locks

/-! ## Operations of the store -/

abbrev ShardEvent := LockEvent (Fin 16)

abbrev ShardGuard := Guard (Fin 16)

/-- `RWMutex::ReadLock`, `RWMutex::WriteLock` on the shard of a key. -/
def onShard (F : Type) [Platform F] (write : Bool) (key : Bytes) : ShardGuard :=
  ⟨[shardIdx F key], write, List.nodup_singleton _, List.cons_ne_nil _ _⟩

/-- `ScopedAllShardsLock`. -/
def onAllShards (write : Bool) : ShardGuard := ⟨List.finRange 16, write, List.nodup_finRange 16, by decide⟩

/-- A guard on `m_shards[0]`, for the settings. -/
def onFirstShard (write : Bool) : ShardGuard := ⟨[0], write, List.nodup_singleton _, List.cons_ne_nil _ _⟩

def lockAllShards (write : Bool) : List ShardEvent := lockAll (List.finRange 16) write

def unlockAllShards : List ShardEvent := unlockAll (List.finRange 16)

/-- The operations of the store that handlers call, by the keys that decide which locks they take. -/
inductive StoreOp where
  | get (key : Bytes) | type (key : Bytes) | ttl (key : Bytes) | pttl (key : Bytes) | strlen (key : Bytes)
  | hget (key : Bytes) | hexists (key : Bytes) | hlen (key : Bytes) | hgetall (key : Bytes) | hkeys (key : Bytes)
  | hvals (key : Bytes) | listLen (key : Bytes) | listRange (key : Bytes) | listIndex (key : Bytes)
  | setMembers (key : Bytes) | setCard (key : Bytes) | zscore (key : Bytes) | zcard (key : Bytes)
  | zrange (key : Bytes) | zrank (key : Bytes) | zcount (key : Bytes) | xlen (key : Bytes) | xrange (key : Bytes)
  | hscan (key : Bytes) | sscan (key : Bytes) | zscan (key : Bytes) | dumpKey (key : Bytes)
  | watchToken (key : Bytes)
  | persist (key : Bytes) | expire (key : Bytes) | pexpire (key : Bytes) | expireAt (key : Bytes)
  | pexpireAt (key : Bytes) | incrBy (key : Bytes) | incrByFloat (key : Bytes) | hset (key : Bytes)
  | hsetFields (key : Bytes) | hdel (key : Bytes) | listPush (key : Bytes) | listPop (key : Bytes)
  | listTrim (key : Bytes) | listSet (key : Bytes) | listRem (key : Bytes) | listInsert (key : Bytes)
  | setAdd (key : Bytes) | setRem (key : Bytes) | setIsMember (key : Bytes) | zaddOpt (key : Bytes)
  | zrem (key : Bytes) | zincrby (key : Bytes) | zrangeByScore (key : Bytes) | xdel (key : Bytes)
  | xgroupCreate (key : Bytes) | xgroupDestroy (key : Bytes) | xack (key : Bytes) | xtrim (key : Bytes)
  | xpendingSummary (key : Bytes) | xpendingRange (key : Bytes) | xclaim (key : Bytes) | restoreKey (key : Bytes)
  | setOpt (key : Bytes) | set (key : Bytes) | setex (key : Bytes) | append (key : Bytes) | hincrby (key : Bytes)
  | xadd (key : Bytes) | getex (key : Bytes) | spop (key : Bytes) | zpopmin (key : Bytes) | zpopmax (key : Bytes)
  | getset (key : Bytes) | getdel (key : Bytes) | hsetnx (key : Bytes) | hmset (key : Bytes) (fields : Nat)
  | hmget (key : Bytes) (fields : Nat) | listRPopLPush (src dst : Bytes)
  | delMany | existsMany | flushdb | flushall | renameKey | msetnx | setInter | setUnion | setDiff
  | setInterStore | setUnionStore | setDiffStore | xreadGroup
  | dbsize | expireCount | keys | scan | xread | dump
  | setMaxMemory | setMaxMemoryPolicy | setRdbPath
  | maxMemory | maxMemoryPolicy | getRdbPath | lastSaveUnixSec
  | saveRdb | usedMemoryApprox

/-- The guards of an operation, in order.  Where it may return early, or where `evictIfNeededLocked`
finds no limit set, it goes through some of them only. -/
def StoreOp.guards (F : Type) [Platform F] (op : StoreOp) : List ShardGuard :=
  match op with
  | get key | type key | ttl key | pttl key | strlen key | hget key | hexists key | hlen key | hgetall key
  | hkeys key | hvals key | listLen key | listRange key | listIndex key | setMembers key | setCard key
  | zscore key | zcard key | zrange key | zrank key | zcount key | xlen key | xrange key | hscan key
  | sscan key | zscan key | dumpKey key | watchToken key => [onShard F false key]
  | persist key | expire key | pexpire key | expireAt key | pexpireAt key | incrBy key | incrByFloat key
  | hset key | hsetFields key | hdel key | listPush key | listPop key | listTrim key | listSet key
  | listRem key | listInsert key | setAdd key | setRem key | setIsMember key | zaddOpt key | zrem key
  | zincrby key | zrangeByScore key | xdel key | xgroupCreate key | xgroupDestroy key | xack key
  | xtrim key | xpendingSummary key | xpendingRange key | xclaim key | restoreKey key => [onShard F true key]
  -- `evictIfNeededLocked` has let go of the shards when the shard of the key is locked
  | setOpt key | set key | setex key | append key | hincrby key | xadd key | getex key | spop key
  | zpopmin key | zpopmax key => [onAllShards true, onShard F true key]
  | getset key => [onShard F false key, onAllShards true, onShard F true key]
  | getdel key => [onShard F false key, onAllShards true]
  | hsetnx key => [onShard F false key, onShard F true key]
  | hmset key fields => List.replicate fields (onShard F true key)
  | hmget key fields => List.replicate fields (onShard F false key)
  | listRPopLPush src dst => [onShard F true src, onShard F true dst]
  | delMany | existsMany | flushdb | flushall | renameKey | msetnx | setInter | setUnion | setDiff
  | setInterStore | setUnionStore | setDiffStore | xreadGroup => [onAllShards true]
  | dbsize | expireCount | keys | scan | xread | dump => [onAllShards false]
  | setMaxMemory | setMaxMemoryPolicy | setRdbPath => [onFirstShard true]
  | maxMemory | maxMemoryPolicy | getRdbPath | lastSaveUnixSec => [onFirstShard false]
  | saveRdb => [onFirstShard false, onAllShards false, onFirstShard true]
  | usedMemoryApprox => []

/-! ## Handlers -/

/-- The strings in every second place. -/
def everyOther : List Bytes → List Bytes
  | a :: _ :: rest => a :: everyOther rest
  | rest => rest

/-- The operations a handler calls, at most and in this order. -/
def StoreCommand.calls (c : StoreCommand) (args : List RespValue) : List StoreOp :=
  let key := strAt args 1
  let rest := (args.drop 1).map RespValue.str
  match c with
  | .dbsize => [.dbsize]
  | .flushdb => [.flushdb]
  | .flushall => [.flushall]
  | .type => [.type key]
  | .keys => [.keys]
  | .scan => [.scan]
  | .get => [.get key]
  | .getset => [.getset key]
  | .getdel => [.getdel key]
  | .exist => [.existsMany]
  | .set | .setnx => [.setOpt key]
  | .setex => [.setex key]
  | .expire => [.expire key]
  | .pexpire => [.pexpire key]
  | .ttl => [.ttl key]
  | .pttl => [.pttl key]
  | .persist => [.persist key]
  | .expireat => [.expireAt key]
  | .pexpireat => [.pexpireAt key]
  | .mget => rest.map .get
  | .mset => (everyOther rest).map .set
  | .del => [.delMany]
  | .incr | .decr | .incrby | .decrby => [.incrBy key]
  | .hset => if args.length = 4 then [.hset key] else [.hsetFields key]
  | .hget => [.hget key]
  | .hgetall => [.hgetall key]
  | .hdel => (args.drop 2).map fun _ => .hdel key
  | .hexists => [.hexists key]
  | .hlen => [.hlen key]
  | .hmset => [.hmset key ((args.length - 2) / 2)]
  | .hmget => [.hmget key (args.length - 2)]
  | .hkeys => [.hkeys key]
  | .hvals => [.hvals key]
  | .blpop | .brpop => rest.dropLast.map .listPop
  | .lpop | .rpop => [.listPop key]
  | .llen => [.listLen key]
  | .lrange => [.listRange key]
  | .sadd => [.setAdd key]
  | .srem => [.setRem key]
  | .smembers => [.setMembers key]
  | .scard => [.setCard key]
  | .sismember => [.setIsMember key]
  | .zadd => [.zaddOpt key]
  | .zrem => [.zrem key]
  | .zscore => [.zscore key]
  | .zcard => [.zcard key]
  | .zrange | .zrevrange => [.zrange key]
  | .zincrby => [.zincrby key]
  | .zrank | .zrevrank => [.zrank key]
  | .append => [.append key]
  | .strlen => [.strlen key]
  | .hincrby => [.hincrby key]
  | .lindex => [.listIndex key]
  | .ltrim => [.listTrim key]
  | .lset => [.listSet key]
  | .lrem => [.listRem key]
  | .rpoplpush => [.listRPopLPush key (strAt args 2)]
  | .sinter => [.setInter]
  | .sunion => [.setUnion]
  | .sdiff => [.setDiff]
  | .rename | .renamenx => [.renameKey]
  | .xadd => [.xadd key]
  | .xlen => [.xlen key]
  | .xrange | .xrevrange => [.xrange key]
  | .xread => [.xread]
  | .xdel => [.xdel key]
  | .getex => [.getex key]
  | .hsetnx => [.hsetnx key]
  | .spop => [.spop key]
  | .zpopmin => [.zpopmin key]
  | .zpopmax => [.zpopmax key]
  | .xgroup => if upperAt args 1 = lit "CREATE" then [.xgroupCreate (strAt args 2)] else [.xgroupDestroy (strAt args 2)]
  | .xreadgroup => [.xreadGroup]
  | .xack => [.xack key]
  | .msetnx => [.msetnx]
  | .incrbyfloat => [.incrByFloat key]
  | .linsert => [.listInsert key]
  | .zrangebyscore | .zrevrangebyscore => [.zrangeByScore key]
  | .zcount => [.zcount key]
  | .sinterstore => [.setInterStore]
  | .sunionstore => [.setUnionStore]
  | .sdiffstore => [.setDiffStore]
  | .hscan => [.hscan key]
  | .sscan => [.sscan key]
  | .zscan => [.zscan key]
  | .xtrim => [.xtrim key]
  | .xpending => if 6 ≤ args.length then [.xpendingRange key] else [.xpendingSummary key]
  | .xclaim => [.xclaim key]
  | .dump => [.dumpKey key]
  | .restore => [.restoreKey key]

/-- What `onPush` pops for the waiters of a key. -/
def onPushCalls (db : Int) (key : Bytes) (waiters : List ListWaiter) : List StoreOp :=
  (waiters.filter fun w => decide (w.db = db ∧ key ∈ w.keys)).flatMap fun w => w.keys.map .listPop

def PushCommand.calls (c : PushCommand) (args : List RespValue) (db : Int) (waiters : List ListWaiter) : List StoreOp :=
  match c with
  | .lpush | .rpush => .listPush (strAt args 1) :: onPushCalls db (strAt args 1) waiters
  | .brpoplpush =>
    .listRPopLPush (strAt args 1) (strAt args 2) :: .listPush (strAt args 2) :: onPushCalls db (strAt args 2) waiters

/-- `configGet` fills its table before it looks for a name. -/
def configCalls (args : List RespValue) : List StoreOp :=
  if args.length < 2 ∨ nullAt args 1 then []
  else if upperAt args 1 = lit "GET" then [.maxMemory, .maxMemoryPolicy, .getRdbPath]
  else if upperAt args 1 ≠ lit "SET" ∨ args.length ≠ 4 ∨ nullAt args 2 ∨ nullAt args 3 then []
  else if lower (strAt args 2) = lit "maxmemory" then
    if (strtoll (strAt args 3)).2 = 0 then [] else [.setMaxMemory]
  else if lower (strAt args 2) = lit "maxmemory-policy" then
    if strAt args 3 ∈ Commands.kPolicies then [.setMaxMemoryPolicy] else []
  else if lower (strAt args 2) = lit "dbfilename" then [.setRdbPath]
  else []

/-- PSYNC dumps the store unless the backlog has what is asked for. -/
def psyncCalls (args : List RespValue) (repl : Replication) : List StoreOp :=
  if args.length ≠ 3 ∨ nullAt args 1 ∨ nullAt args 2 then []
  else
    match intAt args 2 with
    | none => []
    | some offset =>
      if repl.role = .slave ∨ (repl.tryCollectPartial (strAt args 1) offset).isSome then [] else [.dump]

def shutdownCalls (args : List RespValue) : List StoreOp :=
  if 2 ≤ args.length ∧ nullAt args 1 = false ∧ upperAt args 1 ≠ lit "SAVE" then [] else [.saveRdb]

/-- BGSAVE and BGREWRITEAOF leave their work to a fiber of its own. -/
def ServerCommand.calls (c : ServerCommand) (args : List RespValue) (repl : Replication) : List StoreOp :=
  match c with
  | .config => configCalls args
  | .info => [.dbsize, .expireCount, .lastSaveUnixSec, .getRdbPath, .usedMemoryApprox, .maxMemory, .maxMemoryPolicy]
  | .watch => ((args.drop 1).takeWhile fun v => !v.isNull).map fun v => .watchToken v.str
  | .psync => psyncCalls args repl
  | .save => if args.length = 1 then [.saveRdb] else []
  | .shutdown => shutdownCalls args
  | .lastsave => if args.length = 1 then [.lastSaveUnixSec] else []
  | .ping | .select | .echo | .unwatch | .multi | .discard | .role | .slaveof | .bgrewriteaof | .subscribe
  | .unsubscribe | .psubscribe | .punsubscribe | .publish | .auth | .bgsave | .client | .quit | .script
  | .time | .slowlog => []

/-- What a handler may do to the locks: the guards of the operations it calls, of which it goes through some,
one after the other.  It is `idle` if it goes through none. -/
structure Stretch where
  guards : List ShardGuard
  idle : Prop

/-- The answer does not come from the store, and the store stays as it is. -/
def Storeless {α : Type} (m : StoreM F α) : Prop := ∃ f : Env → α, ∀ env s, m env s = (f env, s)

def guardsOf (F : Type) [Platform F] (ops : List StoreOp) : List ShardGuard := ops.flatMap (StoreOp.guards F)

/-- The handlers that a script can reach.  One that refuses its arguments, or whose operation does, answers
without the store; behind the first lock every operation looks at it. -/
def basicStretch (c : Command) (args : List RespValue) (ctx : KvContext) (sv : Server F) : Stretch :=
  match c with
  | .store c => ⟨guardsOf F (c.calls args), Storeless (handleStore c ctx.db args : StoreM F _)⟩
  | .push c => ⟨guardsOf F (c.calls args ctx.db sv.waiters), Storeless (handlePush c sv.waiters ctx.db args : StoreM F _)⟩
  | .server c => ⟨guardsOf F (c.calls args sv.repl), False⟩
  | .eval | .evalsha | .exec => ⟨[], True⟩

/-- No lock is taken. -/
def Stretch.Idle (s : Stretch) : Prop := s.idle ∨ s.guards = []

/-- A run of a handler: some of its guards, and none exactly if it is idle. -/
def Stretch.Takes (s : Stretch) (gs : List ShardGuard) : Prop := gs.Sublist s.guards ∧ (gs = [] ↔ s.Idle)

/-! ## Scripts -/

/-- What `redis.call` reaches. -/
def callStretches (args : List Bytes) (ctx : KvContext) (sv : Server F) : List Stretch :=
  if upper (args.headD []) ∈ scriptForbidden then []
  else
    match fate ctx sv (bulkArray args) with
    | .runs c => [basicStretch c (bulkArray args).items ctx sv]
    | _ => []

def scriptStretches (env : Env) : LuaRun → KvContext → Server F → List Stretch
  | .done _, _, _ => []
  | .call args next, ctx, sv =>
    let r := redisCall env args ctx sv
    callStretches args ctx sv ++ scriptStretches env (next r.1) r.2.1 r.2.2

/-- One command of a request: a handler, or a script between the two looks at `m_globalAtomic`. -/
inductive Piece where
  | plain (s : Stretch)
  | script (atomic : Bool) (inner : List Stretch) (still : Bool)

/-- `LuaEngine::eval`. -/
def evalPiece (body : Bytes) (env : Env) (args : List RespValue) (ctx : KvContext) (sv : Server F) : Piece :=
  let numkeys := (max (strtoll (strAt args 2)).1 0).toNat
  let rest := (args.drop 3).map RespValue.str
  let run := Platform.lua F body (rest.take numkeys) (rest.drop numkeys)
  .script sv.luaGlobalAtomic (scriptStretches env run ctx sv) (runScript env run ctx sv).2.2.luaGlobalAtomic

/-! ## Requests -/

def queuedPieces (c : Command) (env : Env) (args : List RespValue) (ctx : KvContext) (sv : Server F) : List Piece :=
  match c with
  | .eval =>
    if args.length < 3 ∨ (strAt args 1).isEmpty then [] else [evalPiece (strAt args 1) env args ctx sv]
  | .evalsha =>
    if args.length < 3 ∨ (sv.scripts[strAt args 1]?.getD []).isEmpty then []
    else [evalPiece (sv.scripts[strAt args 1]?.getD []) env args ctx sv]
  | c => [.plain (basicStretch c args ctx sv)]

/-- One command of a transaction. -/
def execOnePieces (env : Env) (req : RespValue) (ctx : KvContext) (sv : Server F) : List Piece :=
  match rawName req with
  | .error _ => []
  | .ok name =>
    match lookup name with
    | none => []
    | some c => queuedPieces c env req.items ctx sv

def execQueuePieces (env : Env) : List RespValue → KvContext → Server F → List Piece
  | [], _, _ => []
  | req :: rest, ctx, sv =>
    let r := dispatchExecOne handleQueued env req ctx sv
    execOnePieces env req ctx sv ++ execQueuePieces env rest r.2.1 (recordQueued req r.1 r.2.2)

def execPieces (env : Env) (args : List RespValue) (ctx : KvContext) (sv : Server F) : List Piece :=
  if args.length ≠ 1 ∨ !ctx.multiMode then []
  else
    let conflict := sv.onStore (Commands.watchConflict ctx.watched) env
    .plain ⟨guardsOf F (ctx.watched.map fun w => .watchToken w.key), False⟩ ::
      if conflict.1 then [] else execQueuePieces env ctx.multiQueue (Commands.endMulti ctx) conflict.2

/-- The commands of a request. -/
def lockPieces (env : Env) (req : RespValue) (ctx : KvContext) (sv : Server F) : List Piece :=
  match fate ctx sv req with
  | .runs .exec => execPieces env req.items ctx sv
  | .runs c => queuedPieces c env req.items ctx sv
  | _ => []

def Piece.Run (p : Piece) (es : List ShardEvent) : Prop :=
  match p with
  | .plain s => ∃ gs, s.Takes gs ∧ es = during gs
  | .script atomic inner still => ∃ gss, List.Forall₂ Stretch.Takes inner gss ∧
    es = (if atomic then lockAllShards true else []) ++ (during gss.flatten ++ if still then unlockAllShards else [])

/-- The locks that a request takes and gives back. -/
def LockRun (env : Env) (req : RespValue) (ctx : KvContext) (sv : Server F) (es : List ShardEvent) : Prop :=
  ∃ ess, List.Forall₂ Piece.Run (lockPieces env req ctx sv) ess ∧ es = ess.flatten

/-- A command leaves the locks alone while the request has all shards (`locked`). -/
def Piece.LeavesAlone (locked : Bool) : Piece → Prop
  | .plain s => locked = true → s.Idle
  | .script atomic inner still =>
    ¬(locked = true ∧ atomic = true) ∧ (locked = true ∨ atomic = true → ∀ s ∈ inner, s.Idle) ∧
      (still = true → locked = true ∨ atomic = true)

/-- Whether the request has all shards behind a command. -/
def Piece.keeps (locked : Bool) : Piece → Bool
  | .plain _ => locked
  | .script atomic _ still => (locked || atomic) && !still

/-- While a script has all shards, and after one that turned `lua-global-atomic` off and kept them, no handler
looks at the store and no script asks for the shards; and no script gives back what it did not take. -/
def LeftAlone : Bool → List Piece → Prop
  | _, [] => True
  | locked, p :: ps => p.LeavesAlone locked ∧ LeftAlone (p.keeps locked) ps

/-! ## Lemmas -/

/-- What a request holds of the shards between its guards. -/
def heldShards (locked : Bool) : Finset (Fin 16) := if locked then Finset.univ else ∅

theorem finRange_toFinset : (List.finRange 16).toFinset = (Finset.univ : Finset (Fin 16)) := by decide

theorem takes_nil {inner : List Stretch} {gss : List (List ShardGuard)} (h : List.Forall₂ Stretch.Takes inner gss) :
    gss.flatten = [] ↔ ∀ s ∈ inner, s.Idle := by
  induction h with
  | nil => exact iff_of_true rfl fun s hs => nomatch hs
  | cons hg _ ih => rw [List.flatten_cons, List.append_eq_nil_iff, List.forall_mem_cons, ih, hg.2]

section disciplined

variable {rest : List ShardEvent}

theorem disciplined_during (gs : List ShardGuard) (locked : Bool) :
    Disciplined (heldShards locked) (during gs ++ rest) ↔
      (locked = true → gs = []) ∧ Disciplined (heldShards locked) rest := by
  cases locked with
  | false => exact disciplined_free.trans (and_iff_right nofun).symm
  | true => exact disciplined_full.trans (and_congr_left fun _ => ⟨fun h _ => h, fun h => h rfl⟩)

theorem disciplined_begin (locked atomic : Bool) :
    Disciplined (heldShards locked) ((if atomic then lockAllShards true else []) ++ rest) ↔
      ¬(locked = true ∧ atomic = true) ∧ Disciplined (heldShards (locked || atomic)) rest := by
  cases atomic with
  | false =>
    rw [Bool.or_false]
    exact (and_iff_right (by simp)).symm
  | true =>
    cases locked with
    | false =>
      have hall : Disciplined ∅ (lockAllShards true ++ rest) ↔ Disciplined (∅ ∪ (List.finRange 16).toFinset) rest :=
        disciplined_lockAll (List.nodup_finRange 16) fun i _ => Finset.notMem_empty i
      rw [Finset.empty_union, finRange_toFinset] at hall
      exact hall.trans (and_iff_right (by decide)).symm
    | true =>
      refine iff_of_false ?_ fun h => h.1 ⟨rfl, rfl⟩
      exact not_disciplined_lockAll (i := 0) (List.mem_finRange 0) (Finset.mem_univ 0)

theorem disciplined_end (locked still : Bool) :
    Disciplined (heldShards locked) ((if still then unlockAllShards else []) ++ rest) ↔
      (still = true → locked = true) ∧ Disciplined (heldShards (locked && !still)) rest := by
  cases still with
  | false =>
    rw [Bool.not_false, Bool.and_true]
    exact (and_iff_right nofun).symm
  | true =>
    rw [Bool.not_true, Bool.and_false]
    refine (disciplined_unlockAll (List.nodup_finRange 16)).trans ?_
    rw [finRange_toFinset, Finset.sdiff_eq_empty_iff_subset.mpr (Finset.subset_univ _)]
    refine and_congr_left fun _ => ?_
    cases locked with
    | false => exact iff_of_false (fun h => Finset.notMem_empty 0 (h 0 (List.mem_finRange 0))) fun h => by cases h rfl
    | true => exact iff_of_true (fun i _ => Finset.mem_univ i) fun _ => rfl

theorem disciplined_piece {p : Piece} {es : List ShardEvent} (h : p.Run es) (locked : Bool) :
    Disciplined (heldShards locked) (es ++ rest) ↔
      p.LeavesAlone locked ∧ Disciplined (heldShards (p.keeps locked)) rest := by
  cases p with
  | plain s =>
    obtain ⟨gs, hgs, rfl⟩ := h
    rw [disciplined_during, hgs.2]
    exact Iff.rfl
  | script atomic inner still =>
    obtain ⟨gss, hgss, rfl⟩ := h
    rw [List.append_assoc, disciplined_begin, List.append_assoc, disciplined_during, disciplined_end, takes_nil hgss,
      Bool.or_eq_true]
    simp only [Piece.LeavesAlone, Piece.keeps, and_assoc]

theorem disciplined_pieces {ps : List Piece} {ess : List (List ShardEvent)} (h : List.Forall₂ Piece.Run ps ess)
    (locked : Bool) : Disciplined (heldShards locked) ess.flatten ↔ LeftAlone locked ps := by
  induction h generalizing locked with
  | nil => exact Iff.rfl
  | cons hp _ ih => exact (disciplined_piece hp locked).trans (and_congr_right fun _ => ih _)

end disciplined

/-! ## Top theorem -/

/-- **A request asks for a shard's lock that it holds, or gives back one that it does not hold, if and only if a
handler looks at the store while a script has all shards, or after a script that kept them, or
`lua-global-atomic` is turned on while none has.** -/
theorem disciplined_iff_leftAlone (env : Env) (req : RespValue) (ctx : KvContext) (sv : Server F)
    (es : List ShardEvent) (h : LockRun env req ctx sv es) :
    Disciplined ∅ es ↔ LeftAlone false (lockPieces env req ctx sv) := by
  obtain ⟨ess, hess, rfl⟩ := h
  exact disciplined_pieces hess false

/-- A server with nothing in it. -/
def bareServer (atomic : Bool) : Server Int :=
  { store := KvStore.empty, repl := { role := .master, replId := [] }, luaGlobalAtomic := atomic }

/-- EVAL of a script with one SET. -/
def evalSet : RespValue := bulkArray [lit "EVAL", lit "return redis.call('SET','k','v')", lit "0"]

/-- SET of `k`, which goes through the guard on its shard. -/
def setStretch : Stretch :=
  basicStretch (F := Int) (.store .set) (bulkArray [lit "SET", lit "k", lit "v"]).items {} (bareServer true)

theorem set_not_idle : ¬setStretch.Idle := by
  have hset : ((handleStore .set 0 (bulkArray [lit "SET", lit "k", lit "v"]).items { now := 1 }
      (KvStore.empty : KvStore Int)).2.item 0 (lit "k")).isSome = true := by decide
  rintro (⟨f, hf⟩ | hnil)
  · have hsame : (handleStore .set 0 (bulkArray [lit "SET", lit "k", lit "v"]).items { now := 1 }
        (KvStore.empty : KvStore Int)).2 = KvStore.empty := congrArg Prod.snd (hf { now := 1 } KvStore.empty)
    rw [hsame] at hset
    cases hset
  · cases hnil

theorem evalSet_pieces (atomic : Bool) :
    lockPieces { now := 1 } evalSet {} (bareServer atomic) = [.script atomic [setStretch] atomic] := by
  cases atomic <;> rfl

theorem evalSet_run (atomic : Bool) :
    LockRun { now := 1 } evalSet {} (bareServer atomic)
      ((if atomic then lockAllShards true else []) ++
        (during [onShard Int true (lit "k")] ++ if atomic then unlockAllShards else [])) := by
  have htakes : setStretch.Takes [onShard Int true (lit "k")] :=
    ⟨(List.Sublist.refl _).cons _, iff_of_false (List.cons_ne_nil _ _) set_not_idle⟩
  refine ⟨[_], ?_, (List.append_nil _).symm⟩
  rw [evalSet_pieces]
  exact .cons ⟨[_], .cons htakes .nil, rfl⟩ .nil

/-- Without `lua-global-atomic` the script takes its locks one after the other. -/
theorem evalSet_disciplined : Disciplined ∅ (during [onShard Int true (lit "k")] ++ []) := by
  refine (disciplined_iff_leftAlone _ _ _ _ _ (evalSet_run false)).mpr ?_
  rw [evalSet_pieces]
  exact ⟨⟨by simp, by simp, by simp⟩, trivial⟩

/-- With it the script has all shards, and SET asks for one of them. -/
theorem evalSet_locked_twice :
    ∃ es, LockRun { now := 1 } evalSet {} (bareServer true) es ∧ ¬Disciplined ∅ es := by
  refine ⟨_, evalSet_run true, fun h => ?_⟩
  have hall : Disciplined (heldShards false) _ := h
  exact ((disciplined_begin false true).mp hall).2.1 (Finset.mem_univ _)

end Kv
