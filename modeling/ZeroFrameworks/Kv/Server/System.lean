import ZeroFrameworks.Kv.Persistence.AofRewrite
import ZeroFrameworks.Kv.Server.Dispatch

/-!
# The running server

A `System` is the server with its connections.  Each connection is a fiber in `handleClient`: it
waits for a request, serves it and whatever else has already arrived, and then sends the replies of
the whole batch at once.  The fibers of the connections, the timers and the background jobs take
turns; an `Event` is what one of them does in one turn, and a run is any list of events.  An event
that is not due leaves the system as it is.
-/

namespace Kv

variable {F : Type} [Platform F]

/-! ## Connections -/

/-- Where a connection is in `handleClient`: not in it, at `recvCommand`, in the inner loop after a
request, or in the loop that keeps a replica's connection open. -/
inductive Phase where
  | closed | reading | serving | following
  deriving DecidableEq, Repr

structure Conn where
  ctx : KvContext := {}
  aofActive : Bool := false
  replActive : Bool := false
  phase : Phase := .closed

/-- What `handleClient` does with a request once it is answered. -/
def Conn.record (c : Conn) (req rsp : RespValue) (sv : Server F) : Server F :=
  if (c.aofActive || c.replActive) && !rsp.isError && isMutatingCommand (upperCmd req) then
    let sv := if c.aofActive then sv.append req else sv
    if c.replActive then sv.propagateCommand req else sv
  else sv

structure System (F : Type) [Platform F] where
  server : Server F
  conns : Nat → Conn := fun _ => {}

/-! ## Events -/

inductive Event where
  | accept (i : Nat) (addr : Bytes)
  | request (i : Nat) (env : Env) (req : RespValue)
  /-- Nothing more has arrived: the batch of connection `i` ends. -/
  | flush (i : Nat)
  /-- The peer of connection `i` goes away. -/
  | hangup (i : Nat)
  | expireTimer (env : Env)
  | saveTimer (env : Env)
  | bgsaveJob (env : Env)
  | bgrewriteJob (env : Env)

namespace System

def setConn (i : Nat) (c : Conn) (sys : System F) : System F :=
  { sys with conns := Function.update sys.conns i c }

/-- `handleClient` up to its loop; a client's id is the number of its session. -/
def accept (i : Nat) (addr : Bytes) (sys : System F) : System F where
  server := { sys.server with
    sessions := Function.update sys.server.sessions i {}
    clients := sys.server.clients ++ [{ id := i, addr := addr }] }
  conns := Function.update sys.conns i
    { ctx := { session := some i, clientId := i, clientAddr := addr
               authenticated := !sys.server.isAuthRequired }
      aofActive := sys.server.aof.enabled
      replActive := sys.server.repl.role == .master
      phase := .reading }

/-- The body of the inner loop. -/
def serve (i : Nat) (env : Env) (req : RespValue) (sys : System F) : System F :=
  let c := sys.conns i
  let r := dispatch env req c.ctx sys.server
  let sv := if r.1.isNone then r.2.2 else r.2.2.onSession i (·.appendResponse r.1)
  setConn i { c with ctx := r.2.1, phase := .serving } { sys with server := c.record req r.1 sv }

/-- What `handleClient` does after its loop. -/
def leave (i : Nat) (sys : System F) : System F :=
  setConn i {} { sys with
    server := { sys.server with
      pubsub := sys.server.pubsub.removeSession i
      waiters := sys.server.waiters.filter (·.session ≠ some i)
      repl := { sys.server.repl with replicas := sys.server.repl.replicas.filter (· ≠ i) }
      clients := sys.server.clients.filter (·.id ≠ i) } }

/-- The end of a batch. -/
def flush (i : Nat) (sys : System F) : System F :=
  let c := sys.conns i
  let r := (sys.server.sessions i).flushResponses
  let sys := { sys with server := sys.server.onSession i fun _ => r.2 }
  if r.1 ≤ 0 then leave i sys
  else if c.ctx.replicaConnection then setConn i { c with phase := .following } sys
  else if c.ctx.quit then leave i sys
  else setConn i { c with phase := .reading } sys

/-- Connection `i` can take a request. -/
def Ready (i : Nat) (sys : System F) : Prop :=
  sys.server.stopped = false ∧ (sys.conns i).ctx.quit = false ∧
    ((sys.conns i).phase = .reading ∨ (sys.conns i).phase = .serving)

instance (i : Nat) (sys : System F) : Decidable (sys.Ready i) := inferInstanceAs (Decidable (_ ∧ _))

def kExpireScanPerDb : Int := 20

def step (sys : System F) : Event → System F
  | .accept i addr => if (sys.conns i).phase = .closed then sys.accept i addr else sys
  | .request i env req => if sys.Ready i then sys.serve i env req else sys
  | .flush i => if (sys.conns i).phase = .serving then sys.flush i else sys
  | .hangup i => if (sys.conns i).phase = .closed then sys else sys.leave i
  | .expireTimer env =>
    { sys with server := (sys.server.onStore (KvStore.purgeExpiredActive kExpireScanPerDb) env).2 }
  | .saveTimer env => { sys with server := sys.server.saveRdb env }
  | .bgsaveJob env =>
    if sys.server.bgsaveRunning then
      { sys with server := { sys.server.saveRdb env with bgsaveRunning := false } }
    else sys
  | .bgrewriteJob env =>
    if sys.server.bgrewriteRunning then
      { sys with server := { sys.server.rewriteAof env with bgrewriteRunning := false } }
    else sys

def run (sys : System F) (events : List Event) : System F := events.foldl step sys

end System

end Kv
