import ZeroFrameworks.Kv.Server.State

/-!
# Rewriting the append-only log

`buildRewriteCommands` lists commands that are meant to rebuild the store: the loop goes through the
shards, in each shard through its databases, and in each database through its unexpired entries.
A database is selected where the loop meets it for the first time and never again.
-/

namespace Kv

variable {F : Type} [Platform F]

/-! ## Algorithm -/

/-- `(expire_at_ms - now + 999) / 1000`. -/
def rewriteTtlSec (now expireAtMs : Int) : Int := (i64 (expireAtMs - now + 999)).tdiv 1000

/-- Whether a deadline is ahead and its rounded distance positive. -/
def rewriteTtl (now expireAtMs : Int) : Option Int :=
  if now < expireAtMs ∧ 0 < rewriteTtlSec now expireAtMs then some (rewriteTtlSec now expireAtMs)
  else none

/-- A command with as many arguments as there are items, left out when there are none. -/
def rewriteAll (command : String) (key : Bytes) (items : List Bytes) : List RespValue :=
  if items.isEmpty then [] else [bulkArray (lit command :: key :: items)]

/-- SETEX where a deadline is ahead, else SET. -/
def rewriteString (now : Int) (key : Bytes) (o : Item F) : RespValue :=
  match rewriteTtl now o.expireAtMs with
  | some sec => bulkArray [lit "SETEX", key, printInt sec, o.value]
  | none => bulkArray [lit "SET", key, o.value]

/-- An entry of a stream with its fields sorted by name. -/
def rewriteStreamEntry (key : Bytes) (e : StreamEntry) : RespValue :=
  bulkArray (lit "XADD" :: key :: e.id :: e.fields.toList.flatMap fun f => [f.1, f.2])

/-- The value of an entry; a string brings its deadline along. -/
def rewriteValue (env : Env) (key : Bytes) (o : Item F) : List RespValue :=
  match o.type with
  | .hash => (o.hash.listed env.order).map fun f => bulkArray [lit "HSET", key, f.1, f.2]
  | .list => rewriteAll "RPUSH" key o.list
  | .set => rewriteAll "SADD" key (env.order o.set.toList)
  | .zset =>
    rewriteAll "ZADD" key ((o.zset.listed env.order).flatMap fun z => [Platform.format z.2, z.1])
  | .stream => o.stream.map (rewriteStreamEntry key)
  | .string | .other _ => [rewriteString env.now key o]

/-- EXPIRE for the entries of other types. -/
def rewriteExpire (now : Int) (key : Bytes) (o : Item F) : List RespValue :=
  if o.type = .string then []
  else
    match rewriteTtl now o.expireAtMs with
    | some sec => [bulkArray [lit "EXPIRE", key, printInt sec]]
    | none => []

def rewriteEntry (env : Env) (key : Bytes) (o : Item F) : List RespValue :=
  rewriteValue env key o ++ rewriteExpire env.now key o

def rewriteSelect (db : Int) : RespValue := bulkArray [lit "SELECT", printInt db]

/-- One database of one shard; `done` are the databases that have been selected. -/
def rewriteDb (env : Env) (done : List Int) (db : Int) (m : DbMap F) : List RespValue :=
  (if db ∈ done then [] else [rewriteSelect db]) ++
    (DbMap.unexpired env m).flatMap fun e => rewriteEntry env e.1 e.2

def rewriteDbs (env : Env) : List Int → List (Int × DbMap F) → List RespValue
  | _, [] => []
  | done, (db, m) :: rest => rewriteDb env done db m ++ rewriteDbs env (db :: done) rest

/-- The databases of all shards, in the order of the loops. -/
def KvStore.shardDbs (s : KvStore F) : List (Int × DbMap F) :=
  (List.finRange 16).flatMap fun i => (s.shards i).dbs.entries.map fun d => (d.1, d.2)

def buildRewriteCommands (env : Env) (s : KvStore F) : List RespValue := rewriteDbs env [] s.shardDbs

/-- `AofLog::rewrite`. -/
def Server.rewriteAof (env : Env) (sv : Server F) : Server F :=
  { sv with aof := { sv.aof with data := (buildRewriteCommands env sv.store).flatMap encode } }

end Kv
