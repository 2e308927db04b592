import ZeroFrameworks.Kv.Commands.Keys
import ZeroFrameworks.Kv.Server.State
import ZeroFrameworks.Kv.Store.Watch

/-!
# Server commands

The commands that need more than the store: settings, transactions, persistence, replication,
Pub/Sub, connections.  They leave what the store holds as it is; INFO drops expired entries on
the way.  `step_server` says what such a command can do to the server.
-/

namespace Kv

variable {F : Type} [Platform F]

/-- A handler gets the request array, the connection and the server. -/
abbrev Handler (F : Type) [Platform F] :=
  Env → List RespValue → KvContext → Server F → RespValue × KvContext × Server F

namespace Commands

/-! ## Settings -/

def ping : Handler F := fun _ args ctx sv =>
  (if 2 ≤ args.length ∧ nullAt args 1 = false then .bulk (strAt args 1) else .pong, ctx, sv)

def echo : Handler F := fun _ args ctx sv =>
  (if args.length < 2 ∨ nullAt args 1 then wrongArity "echo" else .bulk (strAt args 1), ctx, sv)

def fsyncPolicyString : AofFsyncPolicy → Bytes
  | .always => lit "always"
  | .no => lit "no"
  | .everySec => lit "everysec"

def fsyncPolicyOf (policy : Bytes) : AofFsyncPolicy :=
  if lower policy = lit "always" then .always
  else if lower policy = lit "no" then .no
  else .everySec

/-- The table `known` of `configGet`. -/
def configTable (sv : Server F) : BMap Bytes :=
  .ofList [
    (lit "maxmemory", printInt sv.store.conf.maxmemory),
    (lit "maxmemory-policy", sv.store.conf.maxmemoryPolicy),
    (lit "save", []),
    (lit "appendonly", if sv.aof.enabled then lit "yes" else lit "no"),
    (lit "appendfsync", if sv.aof.enabled then fsyncPolicyString sv.aof.fsync else lit "everysec"),
    (lit "requirepass", if sv.isAuthRequired then lit "yes" else []),
    (lit "timeout", lit "0"),
    (lit "tcp-keepalive", lit "300"),
    (lit "databases", lit "16"),
    (lit "slowlog-log-slower-than", printInt sv.slowlog.slowerThanUs),
    (lit "slowlog-max-len", printInt sv.slowlog.maxLen),
    (lit "dir", lit "."),
    (lit "dbfilename", sv.store.conf.rdbPath),
    (lit "lua-global-atomic", if sv.luaGlobalAtomic then lit "yes" else lit "no")] _

def configPairs (table : BMap Bytes) (keys : List Bytes) : List Bytes :=
  keys.flatMap fun key => (table[key]?.map fun value => [key, value]).getD []

/-- The keys named by the arguments; `*` stands for the whole table and ends the loop. -/
def configKeys (all : List Bytes) (seen : List Bytes) : List RespValue → List Bytes
  | [] => seen
  | v :: vs =>
    if v.isNull then configKeys all seen vs
    else if v.str = lit "*" then all
    else configKeys all (seen ++ [v.str]) vs

def configGet (env : Env) (args : List RespValue) (sv : Server F) : RespValue :=
  let table := configTable sv
  let all := env.order table.keys
  bulkArray (configPairs table (if args.length = 2 then all else configKeys all [] (args.drop 2)))

def kPolicies : List Bytes :=
  [lit "noeviction", lit "allkeys-lru", lit "allkeys-random", lit "volatile-lru",
    lit "volatile-random", lit "volatile-ttl"]

def setConf (f : StoreConf → StoreConf) (sv : Server F) : Server F :=
  { sv with store := { sv.store with conf := f sv.store.conf } }

/-- A setting and its new value; the numbers are `strtoll` prefixes. -/
def configSetKey (key value : Bytes) (sv : Server F) : RespValue × Server F :=
  if key = lit "maxmemory" then
    if (strtoll value).2 = 0 then (.err "ERR invalid maxmemory", sv)
    else (.ok, setConf (fun c => { c with maxmemory := max (strtoll value).1 0 }) sv)
  else if key = lit "maxmemory-policy" then
    if value ∉ kPolicies then (.err "ERR invalid maxmemory policy", sv)
    else (.ok, setConf (fun c => { c with maxmemoryPolicy := value }) sv)
  else if key = lit "requirepass" then (.ok, { sv with requirePass := value })
  else if key = lit "appendfsync" then
    (.ok, { sv with aof := { sv.aof with fsync := fsyncPolicyOf value } })
  else if key = lit "slowlog-log-slower-than" then
    if (strtoll value).2 = 0 then (.err "ERR invalid slowlog-log-slower-than", sv)
    else (.ok, { sv with slowlog := sv.slowlog.setSlowerThanUs (strtoll value).1 })
  else if key = lit "slowlog-max-len" then
    if (strtoll value).2 = 0 then (.err "ERR invalid slowlog-max-len", sv)
    else (.ok, { sv with slowlog := sv.slowlog.setMaxLen (strtoll value).1 })
  else if key = lit "dbfilename" then (.ok, setConf (fun c => { c with rdbPath := value }) sv)
  else if key = lit "lua-global-atomic" then
    if value ≠ lit "yes" ∧ value ≠ lit "no" then
      (.err "ERR lua-global-atomic must be 'yes' or 'no'", sv)
    else (.ok, { sv with luaGlobalAtomic := decide (value = lit "yes") })
  else if key = lit "dir" then (.ok, sv)
  else (.error (lit "ERR unsupported CONFIG parameter: " ++ key), sv)

def configSet (args : List RespValue) (sv : Server F) : RespValue × Server F :=
  if args.length ≠ 4 ∨ nullAt args 2 ∨ nullAt args 3 then
    (.err "ERR wrong number of arguments for CONFIG SET", sv)
  else configSetKey (lower (strAt args 2)) (strAt args 3) sv

def config : Handler F := fun env args ctx sv =>
  if args.length < 2 ∨ nullAt args 1 then (wrongArity "config", ctx, sv)
  else if upperAt args 1 = lit "GET" then (configGet env args sv, ctx, sv)
  else if upperAt args 1 = lit "SET" then ((configSet args sv).1, ctx, (configSet args sv).2)
  else (.err "ERR CONFIG subcommand must be GET or SET", ctx, sv)

/-- The replication section of INFO. -/
def infoReplication (r : Replication) : Bytes :=
  lit "# Replication\r\n" ++
    match r.role with
    | .master =>
      lit "role:master\r\nconnected_slaves:" ++ printNat r.replicas.length ++
      lit "\r\nmaster_replid:" ++ r.replId ++ lit "\r\nmaster_repl_offset:" ++ printInt r.offset ++ crlf
    | .slave =>
      lit "role:slave\r\nmaster_host:" ++ r.masterHost ++ lit "\r\nmaster_port:" ++
      printInt r.masterPort ++ lit "\r\nmaster_link_status:" ++ printInt r.masterLinkStatus ++
      lit "\r\nmaster_replid_saved:" ++ r.masterReplId ++ lit "\r\nmaster_repl_offset_saved:" ++
      printInt r.masterOffset ++ crlf

/-- `buildInfoText`. -/
def buildInfoText (db : Int) (r : Replication) : StoreM F Bytes := do
  let keys ← KvStore.dbsize db
  let expires ← KvStore.expireCount db
  fun env s => (lit "# Server\r\nredis_version:7.0.0\r\nredis_mode:standalone\r\n" ++
    lit "redis_engine:zero-redis\r\nos:Linux\r\narch_bits:64\r\n# Keyspace\r\ndb" ++ printInt db ++
    lit ":keys=" ++ printInt keys ++ lit ",expires=" ++ printInt expires ++ lit ",avg_ttl=0\r\n" ++
    lit "# Persistence\r\nrdb_last_save_time:" ++ printInt s.conf.lastSaveSec ++ lit "\r\nrdb_path:" ++
    s.conf.rdbPath ++ lit "\r\n# Memory\r\nused_memory:" ++ printInt (s.usedMemory env) ++
    lit "\r\nmaxmemory:" ++ printInt s.conf.maxmemory ++ lit "\r\nmaxmemory_policy:" ++
    s.conf.maxmemoryPolicy ++ crlf ++ infoReplication r, s)

def info : Handler F := fun env _ ctx sv =>
  let r := sv.onStore (buildInfoText ctx.db sv.repl) env
  (.bulk r.1, ctx, r.2)

def select : Handler F := fun _ args ctx sv =>
  if args.length ≠ 2 then (wrongArity "select", ctx, sv)
  else
    match args[1]?.bind parseDbIndex with
    | none => (.err "ERR invalid DB index", ctx, sv)
    | some db => (.ok, { ctx with db := db }, sv)

def auth : Handler F := fun _ args ctx sv =>
  if args.length ≠ 2 ∨ nullAt args 1 then (wrongArity "auth", ctx, sv)
  else if !sv.isAuthRequired || strAt args 1 == sv.requirePass then
    (.ok, { ctx with authenticated := true }, sv)
  else (.err "ERR invalid password", ctx, sv)

def quit : Handler F := fun _ _ ctx sv => (.ok, { ctx with quit := true }, sv)

def time : Handler F := fun env args ctx sv =>
  (if args.length ≠ 1 then wrongArity "time"
    else bulkArray [printInt (env.now.tdiv 1000), printInt env.usec], ctx, sv)

def clientLine (db : Int) (c : ClientInfo) : Bytes :=
  lit "id=" ++ printInt c.id ++ lit " addr=" ++ c.addr ++ lit " name=" ++ c.name ++ lit " db=" ++
    printInt db ++ lit "\n"

def client : Handler F := fun _ args ctx sv =>
  if args.length < 2 ∨ nullAt args 1 then (wrongArity "client", ctx, sv)
  else if upperAt args 1 = lit "ID" then (.integer ctx.clientId, ctx, sv)
  else if upperAt args 1 = lit "SETNAME" then
    if args.length ≠ 3 ∨ nullAt args 2 then (wrongArity "client setname", ctx, sv)
    else (.ok, { ctx with clientName := strAt args 2 },
      { sv with clients := sv.clients.map fun c =>
          if c.id = ctx.clientId then { c with name := strAt args 2 } else c })
  else if upperAt args 1 = lit "LIST" then (.bulk (sv.clients.flatMap (clientLine ctx.db)), ctx, sv)
  else if upperAt args 1 = lit "GETNAME" then (.bulk ctx.clientName, ctx, sv)
  else if upperAt args 1 = lit "KILL" then (.integer 0, ctx, sv)
  else (.err "ERR unknown CLIENT subcommand", ctx, sv)

def slowlogRow (e : SlowlogEntry) : RespValue :=
  .array [.integer e.id, .integer (e.timestampMs.tdiv 1000), .integer e.durationUs, bulkArray e.args,
    .integer e.clientId, .bulk e.clientAddr]

def slowlog : Handler F := fun _ args ctx sv =>
  if args.length < 2 ∨ nullAt args 1 then (wrongArity "slowlog", ctx, sv)
  else if upperAt args 1 = lit "GET" then
    match if 3 ≤ args.length ∧ nullAt args 2 = false then prefixIntAt args 2 else some 10 with
    | none => (notIntegerError, ctx, sv)
    | some count => (.array ((sv.slowlog.get count).map slowlogRow), ctx, sv)
  else if upperAt args 1 = lit "LEN" then (.integer sv.slowlog.entries.length, ctx, sv)
  else if upperAt args 1 = lit "RESET" then
    (.ok, ctx, { sv with slowlog := { sv.slowlog with entries := [] } })
  else (.err "ERR unknown SLOWLOG subcommand", ctx, sv)

/-! ## Transactions -/

def watchLoop (env : Env) (ctx : KvContext) (sv : Server F) :
    List RespValue → RespValue × KvContext × Server F
  | [] => (.ok, ctx, sv)
  | v :: vs =>
    if v.isNull then (syntaxError, ctx, sv)
    else
      let r := sv.onStore (KvStore.watchToken ctx.db v.str) env
      let dup := ctx.watched.any fun w => w.db == ctx.db && w.key == v.str
      let watched := if dup then ctx.watched else ctx.watched ++ [⟨ctx.db, v.str, r.1⟩]
      watchLoop env { ctx with watched := watched } r.2 vs

def watch : Handler F := fun env args ctx sv =>
  if args.length < 2 then (wrongArity "watch", ctx, sv) else watchLoop env ctx sv (args.drop 1)

def unwatch : Handler F := fun _ args ctx sv =>
  if args.length ≠ 1 then (wrongArity "unwatch", ctx, sv) else (.ok, { ctx with watched := [] }, sv)

def multi : Handler F := fun _ args ctx sv =>
  if args.length ≠ 1 then (wrongArity "multi", ctx, sv)
  else if ctx.multiMode then (.err "ERR MULTI calls can not be nested", ctx, sv)
  else (.ok, { ctx with multiMode := true, multiQueue := [] }, sv)

/-- The connection after its transaction is over. -/
def endMulti (ctx : KvContext) : KvContext :=
  { ctx with multiMode := false, multiQueue := [], watched := [] }

def discard : Handler F := fun _ args ctx sv =>
  if args.length ≠ 1 then (wrongArity "discard", ctx, sv)
  else if !ctx.multiMode then (.err "ERR DISCARD without MULTI", ctx, sv)
  else (.ok, endMulti ctx, sv)

/-- `watchConflict`. -/
def watchConflict : List WatchEntry → StoreM F Bool
  | [] => pure false
  | w :: ws => do
    let token ← KvStore.watchToken w.db w.key
    if token ≠ w.token then pure true else watchConflict ws

/-! ## Persistence -/

def save : Handler F := fun env args ctx sv =>
  if args.length ≠ 1 then (wrongArity "save", ctx, sv) else (.ok, ctx, sv.saveRdb env)

def lastsave : Handler F := fun _ args ctx sv =>
  (if args.length ≠ 1 then wrongArity "lastsave" else .integer sv.store.conf.lastSaveSec, ctx, sv)

/-- BGSAVE; the save itself is a job for later. -/
def bgsave : Handler F := fun _ args ctx sv =>
  if args.length ≠ 1 then (wrongArity "bgsave", ctx, sv)
  else if sv.bgsaveRunning then (.err "ERR Background save already in progress", ctx, sv)
  else (.ok, ctx, { sv with bgsaveRunning := true })

/-- BGREWRITEAOF; the rewrite itself is a job for later. -/
def bgrewriteaof : Handler F := fun _ args ctx sv =>
  if args.length ≠ 1 then (wrongArity "bgrewriteaof", ctx, sv)
  else if !sv.aof.enabled then (.err "ERR AOF disabled", ctx, sv)
  else if sv.bgrewriteRunning then (.err "ERR Background AOF rewrite already in progress", ctx, sv)
  else (.ok, ctx, { sv with bgrewriteRunning := true })

def shutdown : Handler F := fun env args ctx sv =>
  let option := decide (2 ≤ args.length) && !nullAt args 1
  if option ∧ upperAt args 1 = lit "NOSAVE" then (.ok, ctx, { sv with stopped := true })
  else if option ∧ upperAt args 1 ≠ lit "SAVE" then (syntaxError, ctx, sv)
  else (.ok, ctx, { sv.saveRdb env with stopped := true })

/-! ## Replication -/

def role : Handler F := fun _ args ctx sv =>
  let reply := match sv.repl.role with
    | .master => .array [.bulk (lit "master"), .integer sv.repl.offset, .array []]
    | .slave => .array [.bulk (lit "slave"), .bulk sv.repl.masterHost, .integer sv.repl.masterPort,
        .bulk (lit "connect"), .bulk (printInt sv.repl.masterLinkStatus)]
  (if args.length ≠ 1 then wrongArity "role" else reply, ctx, sv)

/-- `setSlaveOf`, without the synchronisation it schedules. -/
def setSlaveOf (host : Bytes) (port : Int) (r : Replication) : Replication :=
  if host.isEmpty then
    { r with role := .master, masterHost := [], masterPort := 0, masterLinkStatus := 0,
             masterReplId := [], masterOffset := -1 }
  else { r with role := .slave, masterHost := host, masterPort := port, masterLinkStatus := 0 }

def slaveof : Handler F := fun _ args ctx sv =>
  if args.length ≠ 3 ∨ nullAt args 1 ∨ nullAt args 2 then (wrongArity "slaveof", ctx, sv)
  else if upperAt args 1 = lit "NO" ∧ upperAt args 2 = lit "ONE" then
    (.ok, ctx, { sv with repl := setSlaveOf [] 0 sv.repl })
  else
    match (intAt args 2).filter fun port => decide (0 < port) && decide (port ≤ 65535) with
    | none => (.err "ERR invalid port", ctx, sv)
    | some port => (.ok, ctx, { sv with repl := setSlaveOf (strAt args 1) port sv.repl })

inductive PsyncResult where
  | full (line : RespValue) (payload : Bytes)
  | continued (line : RespValue) (payload : Bytes)
  | refused (line : RespValue)

/-- `handlePsync`. -/
def handlePsync (env : Env) (replid : Bytes) (offset : Int) (sv : Server F) : PsyncResult :=
  match sv.repl.role with
  | .slave => .refused (.err "ERR PSYNC not allowed on replica")
  | .master =>
    match sv.repl.tryCollectPartial replid offset with
    | some payload => .continued (.simple (lit "CONTINUE")) payload
    | none =>
      .full (.simple (lit "FULLRESYNC " ++ sv.repl.replId ++ lit " " ++ printInt sv.repl.offset))
        (dumpBinaryV2 env sv.store)

/-- `registerReplica`. -/
def registerReplica (session : Nat) (sv : Server F) : Server F :=
  { sv with repl := { sv.repl with replicas := sv.repl.replicas ++ [session] } }

/-- What PSYNC does with its result on a session. -/
def answerPsync (session : Nat) (ctx : KvContext) (sv : Server F) : PsyncResult →
    RespValue × KvContext × Server F
  | .refused line => (line, ctx, sv)
  | .full line payload =>
    let sv := sv.onSession session fun s => (s.appendResponse line).appendResponse (.bulk payload)
    (.null, { ctx with replicaConnection := true }, registerReplica session sv)
  | .continued line payload =>
    let sv := sv.onSession session fun s => s.appendResponse line
    if payload.isEmpty then (.null, ctx, sv)
    else
      let sv := sv.onSession session fun s => (s.pushReplicationPayload payload).2
      (.null, { ctx with replicaConnection := true }, registerReplica session sv)

def PsyncResult.line : PsyncResult → RespValue
  | .full line _ | .continued line _ | .refused line => line

def psync : Handler F := fun env args ctx sv =>
  if args.length ≠ 3 ∨ nullAt args 1 ∨ nullAt args 2 then (wrongArity "psync", ctx, sv)
  else
    match intAt args 2 with
    | none => (.err "ERR invalid replication offset", ctx, sv)
    | some offset =>
      let result := handlePsync env (strAt args 1) offset sv
      match ctx.session with
      | none => (result.line, ctx, sv)
      | some session => answerPsync session ctx sv result

/-! ## Pub/Sub -/

/-- `makePubSubMetaReply`. -/
def makePubSubMetaReply (kind : String) (channel : Bytes) (count : Int) : RespValue :=
  .array [.bulk (lit kind), .bulk channel, .integer count]

/-- The loops of the four commands: the hub and the replies. -/
def topicLoop (kind : String) (op : Bytes → Nat → PubSubHub → PubSubHub) (session : Nat)
    (hub : PubSubHub) : List RespValue → List RespValue × PubSubHub
  | [] => ([], hub)
  | v :: vs =>
    if v.isNull then topicLoop kind op session hub vs
    else
      let hub := op v.str session hub
      let r := topicLoop kind op session hub vs
      (makePubSubMetaReply kind v.str (hub.subscriptionCount session) :: r.1, r.2)

def pubsubUnavailable : RespValue := .err "ERR Pub/Sub unavailable"

def subscribeCommand (kind : String) (op : Bytes → Nat → PubSubHub → PubSubHub) : Handler F :=
  fun _ args ctx sv =>
    if args.length < 2 then (wrongArity kind, ctx, sv)
    else
      match ctx.session with
      | none => (pubsubUnavailable, ctx, sv)
      | some session =>
        let r := topicLoop kind op session sv.pubsub (args.drop 1)
        (.array r.1, { ctx with pubsubMode := true }, { sv with pubsub := r.2 })

def subscribe : Handler F := subscribeCommand "subscribe" PubSubHub.subscribe

def psubscribe : Handler F := subscribeCommand "psubscribe" PubSubHub.psubscribe

/-- Leave Pub/Sub mode when nothing is subscribed any more. -/
def leavePubsub (session : Nat) (hub : PubSubHub) (ctx : KvContext) : KvContext :=
  if hub.subscriptionCount session = 0 then { ctx with pubsubMode := false } else ctx

def unsubscribe : Handler F := fun _ args ctx sv =>
  match ctx.session with
  | none => (pubsubUnavailable, ctx, sv)
  | some session =>
    if args.length = 1 then
      let hub := sv.pubsub.unsubscribeAll session
      (.array [makePubSubMetaReply "unsubscribe" [] 0], leavePubsub session hub ctx,
        { sv with pubsub := hub })
    else
      let r := topicLoop "unsubscribe" PubSubHub.unsubscribe session sv.pubsub (args.drop 1)
      (.array r.1, leavePubsub session r.2 ctx, { sv with pubsub := r.2 })

/-- PUNSUBSCRIBE; without arguments it leaves the mode only if something was subscribed before. -/
def punsubscribe : Handler F := fun _ args ctx sv =>
  match ctx.session with
  | none => (pubsubUnavailable, ctx, sv)
  | some session =>
    if args.length = 1 then
      let hub := sv.pubsub.punsubscribeAll session
      let before := sv.pubsub.subscriptionCount session
      (.array [makePubSubMetaReply "punsubscribe" [] 0],
        if 0 < before then leavePubsub session hub ctx else ctx, { sv with pubsub := hub })
    else
      let r := topicLoop "punsubscribe" PubSubHub.punsubscribe session sv.pubsub (args.drop 1)
      (.array r.1, leavePubsub session r.2 ctx, { sv with pubsub := r.2 })

/-- The pushes of PUBLISH; those that send something count. -/
def deliver (sv : Server F) : List (Nat × RespValue) → Int × Server F
  | [] => (0, sv)
  | (session, msg) :: rest =>
    let pushed := (sv.sessions session).pushPubSubMessage msg
    let r := deliver (sv.onSession session fun _ => pushed.2) rest
    (r.1 + if 0 < pushed.1 then 1 else 0, r.2)

def publish : Handler F := fun env args ctx sv =>
  if args.length ≠ 3 ∨ nullAt args 1 ∨ nullAt args 2 then (wrongArity "publish", ctx, sv)
  else
    match ctx.session with
    | none => (.integer 0, ctx, sv)
    | some _ =>
      let r := deliver sv (sv.pubsub.deliveries env.order (strAt args 1) (strAt args 2))
      (.integer r.1, ctx, r.2)

/-! ## Script cache -/

def script : Handler F := fun _ args ctx sv =>
  if args.length < 2 then (wrongArity "script", ctx, sv)
  else if upperAt args 1 = lit "LOAD" then
    if args.length < 3 then (wrongArity "script|load", ctx, sv)
    else
      let sha := Platform.sha1Hex F (strAt args 2)
      (.bulk sha, ctx, { sv with scripts := sv.scripts.insert sha (strAt args 2) })
  else if upperAt args 1 = lit "EXISTS" then
    (.array ((args.drop 2).map fun v => .integer (if v.str ∈ sv.scripts then 1 else 0)), ctx, sv)
  else if upperAt args 1 = lit "KILL" then (.ok, ctx, sv)
  else if upperAt args 1 = lit "FLUSH" then (.ok, ctx, { sv with scripts := ∅ })
  else (.error (lit "ERR Unknown SCRIPT subcommand: " ++ upperAt args 1), ctx, sv)

end Commands

end Kv
