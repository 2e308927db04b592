import ZeroFrameworks.Kv.Commands.Sets
import ZeroFrameworks.Kv.Commands.Streams
import ZeroFrameworks.Kv.Commands.Strings
import ZeroFrameworks.Kv.Commands.ZSets
import ZeroFrameworks.Kv.Server.Commands

/-!
# Command dispatch

A request passes the gates of `dispatch` in order (Pub/Sub mode, authentication, read-only
replica, transaction) and reaches the handler its name is registered for.  Names are looked up
as they are and then in lower case; the gates compare upper-case names.

Handlers come in three layers, since a script may call most commands, and EXEC runs a queue that
may hold scripts:

    handleBasic    every command but EVAL, EVALSHA and EXEC
    handleQueued   those and scripts, whose calls go through dispatch with handleBasic
    handle         those and EXEC, whose queue goes to handleQueued without the gates
-/

namespace Kv

variable {F : Type} [Platform F]

/-! ## Registered commands -/

/-- Commands that use the store alone. -/
inductive StoreCommand where
  | dbsize | flushdb | flushall | type | keys | scan | get | getset | getdel | exist | set | setex
  | expire | pexpire | ttl | pttl | persist | expireat | pexpireat | mget | mset | del | incr | decr
  | incrby | decrby | hset | hget | hgetall | hdel | hexists | hlen | hmset | hmget | hkeys | hvals
  | blpop | brpop | lpop | rpop | llen | lrange | sadd | srem | smembers | scard | sismember
  | zadd | zrem | zscore | zcard | zrange | zrevrange | zincrby | zrank | zrevrank | append | strlen
  | hincrby | lindex | ltrim | lset | lrem | rpoplpush | sinter | sunion | sdiff | rename | renamenx
  | xadd | xlen | xrange | xrevrange | xread | xdel | getex | setnx | hsetnx | spop | zpopmin
  | zpopmax | xgroup | xreadgroup | xack | msetnx | incrbyfloat | linsert | zrangebyscore
  | zrevrangebyscore | zcount | sinterstore | sunionstore | sdiffstore | hscan | sscan | zscan
  | xtrim | xpending | xclaim | dump | restore
  deriving DecidableEq, Repr

/-- Commands that push to a list and may wake a waiter. -/
inductive PushCommand where
  | lpush | rpush | brpoplpush
  deriving DecidableEq, Repr

/-- Commands on the rest of the server or on the connection. -/
inductive ServerCommand where
  | ping | config | info | select | echo | watch | unwatch | multi | discard | role | slaveof | psync
  | save | lastsave | bgrewriteaof | subscribe | unsubscribe | psubscribe | punsubscribe | publish
  | auth | bgsave | client | quit | script | time | shutdown | slowlog
  deriving DecidableEq, Repr

inductive Command where
  | store (c : StoreCommand)
  | push (c : PushCommand)
  | server (c : ServerCommand)
  | eval | evalsha | exec
  deriving DecidableEq, Repr

open StoreCommand PushCommand ServerCommand in
/-- `registerBuiltinCommands` and `registerP0P1Commands`. -/
def registered : List (String × Command) := [
  ("PING", .server ping), ("CONFIG", .server config), ("INFO", .server info),
  ("SELECT", .server select), ("DBSIZE", .store dbsize), ("FLUSHDB", .store flushdb),
  ("FLUSHALL", .store flushall), ("TYPE", .store type), ("KEYS", .store keys), ("SCAN", .store .scan),
  ("ECHO", .server echo), ("GET", .store get), ("GETSET", .store getset), ("GETDEL", .store getdel),
  ("EXISTS", .store exist), ("SET", .store set), ("SETEX", .store setex), ("EXPIRE", .store expire),
  ("PEXPIRE", .store pexpire), ("TTL", .store ttl), ("PTTL", .store pttl),
  ("PERSIST", .store persist), ("EXPIREAT", .store expireat), ("PEXPIREAT", .store pexpireat),
  ("MGET", .store mget), ("MSET", .store mset), ("DEL", .store del), ("INCR", .store incr),
  ("DECR", .store decr), ("INCRBY", .store incrby), ("DECRBY", .store decrby), ("HSET", .store hset),
  ("HGET", .store hget), ("HGETALL", .store hgetall), ("HDEL", .store hdel),
  ("HEXISTS", .store hexists), ("HLEN", .store hlen), ("HMSET", .store hmset), ("HMGET", .store hmget),
  ("HKEYS", .store hkeys), ("HVALS", .store hvals), ("WATCH", .server watch),
  ("UNWATCH", .server unwatch), ("MULTI", .server multi), ("DISCARD", .server discard),
  ("EXEC", .exec), ("LPUSH", .push lpush), ("RPUSH", .push rpush), ("BLPOP", .store blpop),
  ("BRPOP", .store brpop), ("LPOP", .store lpop), ("RPOP", .store rpop), ("LLEN", .store llen),
  ("LRANGE", .store lrange), ("SADD", .store sadd), ("SREM", .store srem),
  ("SMEMBERS", .store smembers), ("SCARD", .store scard), ("SISMEMBER", .store sismember),
  ("ZADD", .store zadd), ("ZREM", .store zrem), ("ZSCORE", .store zscore), ("ZCARD", .store zcard),
  ("ZRANGE", .store zrange), ("ZREVRANGE", .store zrevrange), ("ZINCRBY", .store zincrby),
  ("ZRANK", .store zrank), ("ZREVRANK", .store zrevrank), ("ROLE", .server role),
  ("SLAVEOF", .server slaveof), ("PSYNC", .server psync), ("SAVE", .server save),
  ("LASTSAVE", .server lastsave), ("BGREWRITEAOF", .server bgrewriteaof),
  ("SUBSCRIBE", .server subscribe), ("UNSUBSCRIBE", .server unsubscribe),
  ("PSUBSCRIBE", .server psubscribe), ("PUNSUBSCRIBE", .server punsubscribe),
  ("PUBLISH", .server publish), ("AUTH", .server auth), ("APPEND", .store append),
  ("STRLEN", .store strlen), ("HINCRBY", .store hincrby), ("LINDEX", .store lindex),
  ("LTRIM", .store ltrim), ("LSET", .store lset), ("LREM", .store lrem),
  ("RPOPLPUSH", .store rpoplpush), ("SINTER", .store sinter), ("SUNION", .store sunion),
  ("SDIFF", .store sdiff), ("RENAME", .store rename), ("RENAMENX", .store renamenx),
  ("BGSAVE", .server bgsave), ("XADD", .store xadd), ("XLEN", .store xlen), ("XRANGE", .store xrange),
  ("XREVRANGE", .store xrevrange), ("XREAD", .store xread), ("XDEL", .store xdel),
  ("GETEX", .store getex), ("SETNX", .store setnx), ("HSETNX", .store hsetnx), ("SPOP", .store spop),
  ("ZPOPMIN", .store zpopmin), ("ZPOPMAX", .store zpopmax), ("CLIENT", .server client),
  ("XGROUP", .store xgroup), ("XREADGROUP", .store xreadgroup), ("XACK", .store xack),
  ("QUIT", .server quit), ("EVAL", .eval), ("EVALSHA", .evalsha), ("SCRIPT", .server script),
  ("MSETNX", .store msetnx), ("INCRBYFLOAT", .store incrbyfloat), ("LINSERT", .store linsert),
  ("BRPOPLPUSH", .push brpoplpush), ("ZRANGEBYSCORE", .store zrangebyscore),
  ("ZREVRANGEBYSCORE", .store zrevrangebyscore), ("ZCOUNT", .store zcount),
  ("SINTERSTORE", .store sinterstore), ("SUNIONSTORE", .store sunionstore),
  ("SDIFFSTORE", .store sdiffstore), ("HSCAN", .store hscan), ("SSCAN", .store sscan),
  ("ZSCAN", .store zscan), ("XTRIM", .store xtrim), ("XPENDING", .store xpending),
  ("XCLAIM", .store xclaim), ("DUMP", .store dump), ("RESTORE", .store restore),
  ("TIME", .server time), ("SHUTDOWN", .server shutdown), ("SLOWLOG", .server slowlog)]

/-- `m_handlers.find(name)`: a command is registered under its name and its name in lower case. -/
def findHandler (name : Bytes) : Option Command :=
  (registered.find? fun e => lit e.1 == name || lower (lit e.1) == name).map Prod.snd

/-- The name as it is, then in lower case. -/
def lookup (rawName : Bytes) : Option Command := (findHandler rawName).or (findHandler (lower rawName))

def kMutating : List String := [
  "SET", "SETEX", "SETNX", "GETSET", "GETDEL", "GETEX", "DEL", "EXPIRE", "PEXPIRE",
  "EXPIREAT", "PEXPIREAT", "PERSIST", "MSET", "MSETNX",
  "INCR", "DECR", "INCRBY", "DECRBY", "INCRBYFLOAT",
  "HSET", "HDEL", "HMSET", "HSETNX", "HINCRBY",
  "LPUSH", "RPUSH", "LPOP", "RPOP", "LTRIM", "LSET", "LREM", "RPOPLPUSH", "LINSERT",
  "SADD", "SREM", "SPOP", "SINTERSTORE", "SUNIONSTORE", "SDIFFSTORE",
  "ZADD", "ZREM", "ZINCRBY", "ZPOPMIN", "ZPOPMAX",
  "APPEND", "XADD", "XDEL", "XGROUP", "XACK", "XTRIM", "XCLAIM",
  "RESTORE",
  "RENAME", "RENAMENX",
  "FLUSHDB", "FLUSHALL", "SELECT"]

def isMutatingCommand (upperName : Bytes) : Bool := kMutating.any fun s => lit s == upperName

/-! ## Gates -/

/-- `cmdNameFromRequest`, `upperCmd`. -/
def upperCmd : RespValue → Bytes
  | .array (.bulk name :: _) => upper name
  | _ => []

def isPubsubAllowedCommand (name : Bytes) : Bool :=
  ["SUBSCRIBE", "UNSUBSCRIBE", "PSUBSCRIBE", "PUNSUBSCRIBE", "PING", "QUIT"].any (lit · == name)

def isCommandAuthExempt (name : Bytes) : Bool := ["AUTH", "PING"].any (lit · == name)

def isSlaveWriteAllowed (name : Bytes) : Bool :=
  ["AUTH", "PING", "INFO", "ROLE", "SLAVEOF", "REPLICAOF", "QUIT", "CONFIG", "CLIENT"].any (lit · == name)

/-- The name of a request, or the reply to one that has none. -/
def rawName : RespValue → Except RespValue Bytes
  | .array (.bulk name :: _) => .ok name
  | .array _ => .error (.err "ERR empty command")
  | _ => .error (.err "ERR protocol error: expected array")

def noauthError : RespValue := .err "NOAUTH Authentication required."

def readonlyError : RespValue := .err "READONLY You can't write against a read only replica."

/-- The Pub/Sub, authentication and read-only gates. -/
def refusal (ctx : KvContext) (sv : Server F) (name : Bytes) : Option RespValue :=
  if ctx.pubsubMode && !isPubsubAllowedCommand name && !isPubsubAllowedCommand (upper name) then
    some (.err ("ERR only (P|S)SUBSCRIBE / (P|S)UNSUBSCRIBE / PING / QUIT allowed in Pub/Sub mode"))
  else if sv.isAuthRequired && !ctx.authenticated && !isCommandAuthExempt name &&
      !isCommandAuthExempt (upper name) then
    some noauthError
  else if !ctx.replApply && sv.repl.role == .slave &&
      (isMutatingCommand name || isMutatingCommand (upper name)) &&
      !isSlaveWriteAllowed name && !isSlaveWriteAllowed (upper name) then
    some readonlyError
  else none

/-- What becomes of a request before any handler sees it. -/
inductive Fate where
  | refused (rsp : RespValue)
  | queued
  | runs (c : Command)

/-- The transaction gate; `none` when the request gets past it. -/
def transactionGate (ctx : KvContext) (name : Bytes) : Option Fate :=
  if !ctx.multiMode || upper name == lit "EXEC" || upper name == lit "DISCARD" then none
  else if upper name == lit "MULTI" then some (.refused (.err "ERR MULTI calls can not be nested"))
  else if upper name == lit "WATCH" || upper name == lit "BLPOP" || upper name == lit "BRPOP" then
    some (.refused (.error (lit "ERR " ++ upper name ++ lit " not allowed in MULTI")))
  else some .queued

def unknownCommand (name : Bytes) : RespValue := .error (lit "ERR unknown command '" ++ name ++ lit "'")

/-- The gates in order, then the handler's table. -/
def fate (ctx : KvContext) (sv : Server F) (req : RespValue) : Fate :=
  match rawName req with
  | .error e => .refused e
  | .ok name =>
    match refusal ctx sv name with
    | some e => .refused e
    | none =>
      match transactionGate ctx name with
      | some f => f
      | none =>
        match lookup name with
        | none => .refused (unknownCommand name)
        | some c => .runs c

/-- `CommandDispatch::dispatch` with the handlers `handle`. -/
def dispatchWith (handle : Command → Handler F) (env : Env) (req : RespValue) (ctx : KvContext)
    (sv : Server F) : RespValue × KvContext × Server F :=
  match fate ctx sv req with
  | .refused rsp => (rsp, ctx, sv)
  | .queued => (.queued, { ctx with multiQueue := ctx.multiQueue ++ [req] }, sv)
  | .runs c =>
    let r := handle c env req.items ctx sv
    (r.1, r.2.1, { r.2.2 with
      slowlog := r.2.2.slowlog.record r.2.1 req.items env.now (env.elapsed * 1000) })

/-- `CommandDispatch::dispatchExecOne`. -/
def dispatchExecOne (handle : Command → Handler F) (env : Env) (req : RespValue) (ctx : KvContext)
    (sv : Server F) : RespValue × KvContext × Server F :=
  match rawName req with
  | .error e => (e, ctx, sv)
  | .ok name =>
    match lookup name with
    | none => (unknownCommand name, ctx, sv)
    | some c => handle c env req.items ctx sv

/-! ## Handlers -/

def handleStore : StoreCommand → Int → List RespValue → StoreM F RespValue
  | .dbsize => Commands.dbsize
  | .flushdb => Commands.flushdb
  | .flushall => Commands.flushall
  | .type => Commands.type
  | .keys => Commands.keys
  | .scan => Commands.scan
  | .get => Commands.get
  | .getset => Commands.getset
  | .getdel => Commands.getdel
  | .exist => Commands.exist
  | .set => Commands.set
  | .setex => Commands.setex
  | .expire => Commands.expire
  | .pexpire => Commands.pexpire
  | .ttl => Commands.ttl
  | .pttl => Commands.pttl
  | .persist => Commands.persist
  | .expireat => Commands.expireat
  | .pexpireat => Commands.pexpireat
  | .mget => Commands.mget
  | .mset => Commands.mset
  | .del => Commands.del
  | .incr => Commands.incr
  | .decr => Commands.decr
  | .incrby => Commands.incrby
  | .decrby => Commands.decrby
  | .hset => Commands.hset
  | .hget => Commands.hget
  | .hgetall => Commands.hgetall
  | .hdel => Commands.hdel
  | .hexists => Commands.hexists
  | .hlen => Commands.hlen
  | .hmset => Commands.hmset
  | .hmget => Commands.hmget
  | .hkeys => Commands.hkeys
  | .hvals => Commands.hvals
  | .blpop => Commands.blpop
  | .brpop => Commands.brpop
  | .lpop => Commands.lpop
  | .rpop => Commands.rpop
  | .llen => Commands.llen
  | .lrange => Commands.lrange
  | .sadd => Commands.sadd
  | .srem => Commands.srem
  | .smembers => Commands.smembers
  | .scard => Commands.scard
  | .sismember => Commands.sismember
  | .zadd => Commands.zadd
  | .zrem => Commands.zrem
  | .zscore => Commands.zscore
  | .zcard => Commands.zcard
  | .zrange => Commands.zrange
  | .zrevrange => Commands.zrevrange
  | .zincrby => Commands.zincrby
  | .zrank => Commands.zrank
  | .zrevrank => Commands.zrevrank
  | .append => Commands.append
  | .strlen => Commands.strlen
  | .hincrby => Commands.hincrby
  | .lindex => Commands.lindex
  | .ltrim => Commands.ltrim
  | .lset => Commands.lset
  | .lrem => Commands.lrem
  | .rpoplpush => Commands.rpoplpush
  | .sinter => Commands.sinter
  | .sunion => Commands.sunion
  | .sdiff => Commands.sdiff
  | .rename => Commands.rename
  | .renamenx => Commands.renamenx
  | .xadd => Commands.xadd
  | .xlen => Commands.xlen
  | .xrange => Commands.xrange
  | .xrevrange => Commands.xrevrange
  | .xread => Commands.xread
  | .xdel => Commands.xdel
  | .getex => Commands.getex
  | .setnx => Commands.setnx
  | .hsetnx => Commands.hsetnx
  | .spop => Commands.spop
  | .zpopmin => Commands.zpopmin
  | .zpopmax => Commands.zpopmax
  | .xgroup => Commands.xgroup
  | .xreadgroup => Commands.xreadgroup
  | .xack => Commands.xack
  | .msetnx => Commands.msetnx
  | .incrbyfloat => Commands.incrbyfloat
  | .linsert => Commands.linsert
  | .zrangebyscore => Commands.zrangebyscore
  | .zrevrangebyscore => Commands.zrevrangebyscore
  | .zcount => Commands.zcount
  | .sinterstore => Commands.sinterstore
  | .sunionstore => Commands.sunionstore
  | .sdiffstore => Commands.sdiffstore
  | .hscan => Commands.hscan
  | .sscan => Commands.sscan
  | .zscan => Commands.zscan
  | .xtrim => Commands.xtrim
  | .xpending => Commands.xpending
  | .xclaim => Commands.xclaim
  | .dump => Commands.dump
  | .restore => Commands.restore

def handlePush : PushCommand → List ListWaiter → Int → List RespValue →
    StoreM F (RespValue × List ListWaiter)
  | .lpush => Commands.lpush
  | .rpush => Commands.rpush
  | .brpoplpush => Commands.brpoplpush

def handleServer : ServerCommand → Handler F
  | .ping => Commands.ping
  | .config => Commands.config
  | .info => Commands.info
  | .select => Commands.select
  | .echo => Commands.echo
  | .watch => Commands.watch
  | .unwatch => Commands.unwatch
  | .multi => Commands.multi
  | .discard => Commands.discard
  | .role => Commands.role
  | .slaveof => Commands.slaveof
  | .psync => Commands.psync
  | .save => Commands.save
  | .lastsave => Commands.lastsave
  | .bgrewriteaof => Commands.bgrewriteaof
  | .subscribe => Commands.subscribe
  | .unsubscribe => Commands.unsubscribe
  | .psubscribe => Commands.psubscribe
  | .punsubscribe => Commands.punsubscribe
  | .publish => Commands.publish
  | .auth => Commands.auth
  | .bgsave => Commands.bgsave
  | .client => Commands.client
  | .quit => Commands.quit
  | .script => Commands.script
  | .time => Commands.time
  | .shutdown => Commands.shutdown
  | .slowlog => Commands.slowlog

def runStore (c : StoreCommand) : Handler F := fun env args ctx sv =>
  let r := sv.onStore (handleStore c ctx.db args) env
  (r.1, ctx, r.2)

def runPush (c : PushCommand) : Handler F := fun env args ctx sv =>
  let r := sv.onStore (handlePush c sv.waiters ctx.db args) env
  (r.1.1, ctx, { r.2 with waiters := r.1.2 })

def notAllowedInScript (name : Bytes) : RespValue :=
  .error (lit "ERR " ++ name ++ lit " not allowed inside script")

/-- The commands a script can reach; it is told off before it gets to the other three. -/
def handleBasic : Command → Handler F
  | .store c => runStore c
  | .push c => runPush c
  | .server c => handleServer c
  | .eval | .evalsha | .exec => fun _ args ctx sv => (notAllowedInScript (upperAt args 0), ctx, sv)

/-! ## Scripts -/

def scriptForbidden : List Bytes :=
  [lit "EVAL", lit "EVALSHA", lit "SCRIPT", lit "MULTI", lit "EXEC"]

/-- `redis.call`: the reply the script gets to see. -/
def redisCall (env : Env) (args : List Bytes) (ctx : KvContext) (sv : Server F) :
    RespValue × KvContext × Server F :=
  if upper (args.headD []) ∈ scriptForbidden then (notAllowedInScript (upper (args.headD [])), ctx, sv)
  else dispatchWith handleBasic env (bulkArray args) ctx sv

def runScript (env : Env) : LuaRun → KvContext → Server F → RespValue × KvContext × Server F
  | .done result, ctx, sv => (result, ctx, sv)
  | .call args next, ctx, sv =>
    let r := redisCall env args ctx sv
    runScript env (next r.1) r.2.1 r.2.2

/-- `LuaEngine::eval` on the arguments after `numkeys`. -/
def evalScript (body : Bytes) : Handler F := fun env args ctx sv =>
  let numkeys := (max (strtoll (strAt args 2)).1 0).toNat
  let rest := (args.drop 3).map RespValue.str
  runScript env (Platform.lua F body (rest.take numkeys) (rest.drop numkeys)) ctx sv

def eval : Handler F := fun env args ctx sv =>
  if args.length < 3 then (wrongArity "eval", ctx, sv)
  else if (strAt args 1).isEmpty then (.err "ERR invalid script", ctx, sv)
  else evalScript (strAt args 1) env args ctx sv

def evalsha : Handler F := fun env args ctx sv =>
  if args.length < 3 then (wrongArity "evalsha", ctx, sv)
  else
    let body := sv.scripts[strAt args 1]?.getD []
    if body.isEmpty then (.err "NOSCRIPT No matching script. Please use EVAL.", ctx, sv)
    else evalScript body env args ctx sv

/-! ## Transactions -/

def execOutsideMulti : RespValue := .err "ERR EXEC without MULTI"

/-- What EXEC runs from its queue.  The transaction is over by then, and nothing in the queue
starts another, so an EXEC found there is one without MULTI. -/
def handleQueued : Command → Handler F
  | .eval => eval
  | .evalsha => evalsha
  | .exec => fun _ args ctx sv =>
    (if args.length ≠ 1 then wrongArity "exec" else execOutsideMulti, ctx, sv)
  | c => handleBasic c

/-- Log and propagate one command of a transaction. -/
def recordQueued (req rsp : RespValue) (sv : Server F) : Server F :=
  if !rsp.isError && isMutatingCommand (upperCmd req) then (sv.append req).propagateCommand req else sv

/-- The loop of EXEC. -/
def execQueue (env : Env) : List RespValue → KvContext → Server F → List RespValue × KvContext × Server F
  | [], ctx, sv => ([], ctx, sv)
  | req :: rest, ctx, sv =>
    let r := dispatchExecOne handleQueued env req ctx sv
    let q := execQueue env rest r.2.1 (recordQueued req r.1 r.2.2)
    (r.1 :: q.1, q.2)

def exec : Handler F := fun env args ctx sv =>
  if args.length ≠ 1 then (wrongArity "exec", ctx, sv)
  else if !ctx.multiMode then (execOutsideMulti, ctx, sv)
  else
    let conflict := sv.onStore (Commands.watchConflict ctx.watched) env
    if conflict.1 then (.nullBulk, Commands.endMulti ctx, conflict.2)
    else
      let q := execQueue env ctx.multiQueue (Commands.endMulti ctx) conflict.2
      (.array q.1, q.2)

def handle : Command → Handler F
  | .exec => exec
  | c => handleQueued c

/-- `CommandDispatch::dispatch`. -/
def dispatch (env : Env) (req : RespValue) (ctx : KvContext) (sv : Server F) :
    RespValue × KvContext × Server F := dispatchWith handle env req ctx sv

end Kv
