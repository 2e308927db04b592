import ZeroFrameworks.Kv.Commands.Lists
import ZeroFrameworks.Kv.Persistence.Rdb
import ZeroFrameworks.Kv.Replication.Backlog
import ZeroFrameworks.Kv.Server.PubSub

/-!
# State of the server

A `Server` is the store together with what the commands share beside it: the waiters of blocking
pops, the sessions' output buffers, the Pub/Sub hub, the append-only log, the snapshot files, the
replication manager and the settings.  A `KvContext` is what belongs to one connection.

Sessions are named by numbers, writing to a socket always succeeds, and bytes once written stay in
`Session.sent`.
-/

namespace Kv

/-! ## Sessions -/

structure Session where
  writeBuf : Bytes := []
  /-- What the peer has got. -/
  sent : Bytes := []

namespace Session

/-- `appendResponse`, with its encoded constants for the most common replies. -/
def appendResponse (rsp : RespValue) (s : Session) : Session :=
  let bytes := match rsp with
    | .simple t =>
      if t = lit "OK" then lit "+OK\r\n"
      else if t = lit "PONG" then lit "+PONG\r\n"
      else if t = lit "QUEUED" then lit "+QUEUED\r\n"
      else encode rsp
    | .integer n => if n = 1 then lit ":1\r\n" else if n = 0 then lit ":0\r\n" else encode rsp
    | .null | .nullBulk => lit "$-1\r\n"
    | .array [] => lit "*0\r\n"
    | _ => encode rsp
  { s with writeBuf := s.writeBuf ++ bytes }

/-- The reply is the length as an `int`. -/
def flushResponses (s : Session) : Int × Session :=
  if s.writeBuf.isEmpty then (0, s)
  else (i32 s.writeBuf.length, { writeBuf := [], sent := s.sent ++ s.writeBuf })

def pushPubSubMessage (msg : RespValue) (s : Session) : Int × Session :=
  (s.appendResponse msg).flushResponses

def pushReplicationPayload (encoded : Bytes) (s : Session) : Int × Session :=
  { s with writeBuf := s.writeBuf ++ encoded }.flushResponses

end Session

/-! ## Connections -/

structure WatchEntry where
  db : Int
  key : Bytes
  token : Nat

/-- The Pub/Sub and replication pointers are set together with `session`, for client connections
only; without them the replication manager is the one of the configuration, the same object. -/
structure KvContext where
  db : Int := 0
  quit : Bool := false
  authenticated : Bool := false
  pubsubMode : Bool := false
  multiMode : Bool := false
  replApply : Bool := false
  replicaConnection : Bool := false
  clientId : Int := 0
  clientName : Bytes := []
  clientAddr : Bytes := []
  multiQueue : List RespValue := []
  watched : List WatchEntry := []
  session : Option Nat := none

/-! ## Slow log -/

structure SlowlogEntry where
  id : Int
  timestampMs : Int
  durationUs : Int
  args : List Bytes
  clientId : Int
  clientAddr : Bytes

structure Slowlog where
  maxLen : Int := 128
  slowerThanUs : Int := 10000
  nextId : Int := 1
  entries : List SlowlogEntry := []

namespace Slowlog

def argsFromRequest (args : List RespValue) : List Bytes :=
  args.map fun
    | .nullBulk => lit "(nil)"
    | .bulk s => s
    | .integer n => printInt n
    | _ => lit "?"

def setMaxLen (n : Int) (l : Slowlog) : Slowlog :=
  let n := max n 0
  { l with
    maxLen := n
    entries := if 0 < n ∧ n < l.entries.length then l.entries.drop (l.entries.length - n.toNat)
      else l.entries }

def setSlowerThanUs (us : Int) (l : Slowlog) : Slowlog := { l with slowerThanUs := max us 0 }

def record (ctx : KvContext) (args : List RespValue) (now durationUs : Int) (l : Slowlog) : Slowlog :=
  if durationUs < l.slowerThanUs then l
  else
    let entries := l.entries ++ [{ id := l.nextId, timestampMs := now, durationUs
                                   args := argsFromRequest args, clientId := ctx.clientId
                                   clientAddr := ctx.clientAddr }]
    { l with
      nextId := l.nextId + 1
      entries := if 0 < l.maxLen ∧ l.maxLen < entries.length then entries.drop 1 else entries }

/-- `get`: the newest `count` entries, all of them when `count` is not in range. -/
def get (count : Int) (l : Slowlog) : List SlowlogEntry :=
  if count ≤ 0 ∨ (l.entries.length : Int) < count then l.entries
  else l.entries.drop (l.entries.length - count.toNat)

end Slowlog

/-! ## Server -/

inductive AofFsyncPolicy where
  | always | everySec | no
  deriving DecidableEq

/-- `AofLog`; `data` is what its file holds. -/
structure AofLog where
  enabled : Bool := false
  fsync : AofFsyncPolicy := .everySec
  data : Bytes := []

structure ClientInfo where
  id : Int
  name : Bytes := []
  addr : Bytes := []

structure Server (F : Type) [Platform F] where
  store : KvStore F
  repl : Replication
  waiters : List ListWaiter := []
  sessions : Nat → Session := fun _ => {}
  pubsub : PubSubHub := {}
  aof : AofLog := {}
  /-- Snapshot files by path. -/
  files : BMap Bytes := ∅
  requirePass : Bytes := []
  slowlog : Slowlog := {}
  scripts : BMap Bytes := ∅
  luaGlobalAtomic : Bool := false
  bgsaveRunning : Bool := false
  bgrewriteRunning : Bool := false
  clients : List ClientInfo := []
  stopped : Bool := false

variable {F : Type} [Platform F]

namespace Server

/-- `isAuthRequired`. -/
def isAuthRequired (sv : Server F) : Bool := !sv.requirePass.isEmpty

def onSession (session : Nat) (f : Session → Session) (sv : Server F) : Server F :=
  { sv with sessions := Function.update sv.sessions session (f (sv.sessions session)) }

/-- Run a store operation on the server's store. -/
def onStore {α : Type} (m : StoreM F α) (env : Env) (sv : Server F) : α × Server F :=
  ((m env sv.store).1, { sv with store := (m env sv.store).2 })

/-- `AofLog::append`. -/
def append (command : RespValue) (sv : Server F) : Server F :=
  if sv.aof.enabled then { sv with aof := { sv.aof with data := sv.aof.data ++ encode command } }
  else sv

/-- `fanoutToReplicas`. -/
def fanoutToReplicas (encoded : Bytes) (sv : Server F) : Server F :=
  sv.repl.replicas.foldl
    (fun sv session => sv.onSession session fun s => (s.pushReplicationPayload encoded).2) sv

theorem fanoutToReplicas_frame (encoded : Bytes) (sv : Server F) :
    ∃ sessions, sv.fanoutToReplicas encoded = { sv with sessions := sessions } := by
  unfold fanoutToReplicas
  generalize sv.repl.replicas = replicas
  induction replicas generalizing sv with
  | nil => exact ⟨sv.sessions, rfl⟩
  | cons r rs ih =>
    obtain ⟨sessions, h⟩ := ih (sv.onSession r fun s => (s.pushReplicationPayload encoded).2)
    exact ⟨sessions, h⟩

/-- `propagateCommand`, with the pushes to the replicas. -/
def propagateCommand (command : RespValue) (sv : Server F) : Server F :=
  if sv.repl.role = .master then
    fanoutToReplicas (encode command) { sv with repl := sv.repl.propagateCommand command }
  else sv

/-- `KvStore::saveRdb`. -/
def saveRdb (env : Env) (sv : Server F) : Server F :=
  { sv with
    files := sv.files.insert sv.store.conf.rdbPath (dumpBinaryV2 env sv.store)
    store := { sv.store with conf := { sv.store.conf with lastSaveSec := env.now.tdiv 1000 } } }

end Server

end Kv
