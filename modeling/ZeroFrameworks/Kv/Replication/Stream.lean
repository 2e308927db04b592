import ZeroFrameworks.Kv.Persistence.AofRuns
import ZeroFrameworks.Kv.Replication.Apply
import ZeroFrameworks.Kv.Replication.Attached

/-!
# A client's writes on a replica

A client sends writes to a master that has a replica on session `j`.  What is pushed to the session are the
writes that were carried out, in order, SELECT among them; but the replica has a new connection for each of
them, so that all but SELECT are applied to database 0.

    every write meets Copied → the replica ends with the master's contents   (copied_run)
-/

namespace Kv

variable {F : Type} [Platform F]

/-! ## Specification -/

/-- A master with a replica on session `j`, and a replica with the same contents between `lo` and `hi`. -/
structure Paired (lo hi : Int) (j : Nat) (sv replica : Server F) : Prop where
  role : sv.repl.role = .master
  attached : sv.repl.replicas.count j = 1
  drained : (sv.sessions j).writeBuf = []
  waiters : sv.waiters = []
  idle : replica.waiters = []
  noEvict : replica.store.conf.NoEvict
  alike : Alike lo hi sv.store replica.store

/-- A client connects and sends commands, each at its time. -/
def clientRun (i : Nat) (addr : Bytes) (cmds : List (Env × RespValue)) : List Event :=
  .accept i addr :: cmds.map fun c => .request i c.1 c.2

/-- The write is turned away, or it is one that can be had again from its text, in database 0. -/
def Copied (lo hi : Int) (i : Nat) (sys : System F) (c : Env × RespValue) : Prop :=
  isMutatingCommand (upperCmd c.2) = true ∧ Faithful lo hi 0 sys (.request i c.1 c.2)

def CopiedRun (lo hi : Int) (i : Nat) : System F → List (Env × RespValue) → Prop
  | _, [] => True
  | sys, c :: cmds => Copied lo hi i sys c ∧ CopiedRun lo hi i (sys.step (.request i c.1 c.2)) cmds

/-! ## Lemmas -/

/-- Where a replica stands: on the contents of `live`. -/
structure Applied (lo hi : Int) (live : KvStore F) (sv : Server F) : Prop where
  waiters : sv.waiters = []
  noEvict : sv.store.conf.NoEvict
  alike : Alike lo hi live sv.store

section

variable {lo hi : Int} {env env' : Env} {req : RespValue} {ctx : KvContext} {sv replica : Server F}

theorem dispatch_frame (hm : isMutatingCommand (upperCmd req) = true) (env : Env) (ctx : KvContext) (sv : Server F) :
    ∃ store waiters slowlog, (dispatch env req ctx sv).2.2 = { sv with store, waiters, slowlog } := by
  unfold dispatch dispatchWith
  cases hf : fate ctx sv req with
  | refused rsp => exact ⟨sv.store, sv.waiters, sv.slowlog, rfl⟩
  | queued => exact ⟨sv.store, sv.waiters, sv.slowlog, rfl⟩
  | runs c =>
    have hc : c.mutating = true := by rw [← mutating_of_fate hf, hm]
    obtain ⟨db, store, waiters, hr⟩ := handle_frame hc env req.items ctx sv
    simp only [hr]
    exact ⟨store, waiters, _, rfl⟩

/-- No gate stands before the connection of a replica. -/
theorem fate_applyContext (hm : isMutatingCommand (upperCmd req) = true) (sv : Server F) :
    ∃ c, fate applyContext sv req = .runs c := by
  obtain ⟨name, c, hname, -, hl, -⟩ := mutating_request hm
  refine ⟨c, ?_⟩
  unfold fate
  rw [hname]
  simp [refusal, applyContext, transactionGate, hl]

theorem Applied.write {c : Command} (h : Applied lo hi sv.store replica) (hf : fate ctx sv req = .runs c)
    (hw : WriteOk lo hi 0 env req ctx sv c) (hwrite : IsWrite env req ctx sv) (hwait : sv.waiters = [])
    (hn : sv.store.conf.NoEvict) (h1 : Within lo hi env) (h2 : Within lo hi env') :
    Applied lo hi (dispatch env req ctx sv).2.2.store (applyOne env' req replica) := by
  obtain ⟨c', hf'⟩ := fate_applyContext hwrite.2 replica
  obtain rfl := runs_unique hf hf'
  have hagree : Agree lo hi sv.store replica.store := ⟨h.alike, hn, h.noEvict⟩
  obtain ⟨hrsp, hstore⟩ :=
    dispatch_agree hf hf' hw.mutating hw.repeatable hw.db h1 h2 hwait h.waiters hagree
  have herr : (dispatch env' req applyContext replica).1.isError = false := by
    rw [← hrsp]
    exact hwrite.1
  have hwrote := dispatch_wrote hf' hw.mutating (.inr rfl) h.waiters herr
  obtain ⟨store, slowlog, hserver⟩ := hwrote.server
  have hsame : ∀ sv' : Server F, (addMasterOffset (encode req).length sv').store = sv'.store ∧
      (addMasterOffset (encode req).length sv').waiters = sv'.waiters := by
    intro sv'
    unfold addMasterOffset
    split
    · exact ⟨rfl, rfl⟩
    · exact ⟨rfl, rfl⟩
  obtain ⟨hs, hw'⟩ := hsame (dispatch env' req applyContext replica).2.2
  refine ⟨?_, ?_, ?_⟩
  · show (addMasterOffset _ _).waiters = []
    rw [hw', hserver]
  · show (addMasterOffset _ _).store.conf.NoEvict
    rw [hs]
    exact hstore.noEvictR
  · show Alike lo hi _ (addMasterOffset _ _).store
    rw [hs]
    exact hstore.toAlike

theorem foldl_push_once {encoded : Bytes} (he : encoded ≠ []) {j : Nat} {l : List Nat} (h : l.count j = 1) :
    (l.foldl (fun sv k => sv.onSession k fun s => (s.pushReplicationPayload encoded).2) sv).sessions j =
      { writeBuf := [], sent := (sv.sessions j).sent ++ ((sv.sessions j).writeBuf ++ encoded) } := by
  induction l generalizing sv with
  | nil => cases h
  | cons k l ih =>
    rw [List.foldl_cons]
    by_cases hk : k = j
    · subst hk
      have hnot : k ∉ l := by
        rw [List.count_cons_self] at h
        exact List.count_eq_zero.mp (Nat.succ.inj h)
      rw [foldl_push_other hnot]
      have hself : (sv.onSession k fun s => (s.pushReplicationPayload encoded).2).sessions k =
          ((sv.sessions k).pushReplicationPayload encoded).2 := Function.update_self ..
      have hne : ((sv.sessions k).writeBuf ++ encoded).isEmpty = false := by simp [he]
      rw [hself, Session.pushReplicationPayload, Session.flushResponses, hne]
      rfl
    · rw [List.count_cons_of_ne hk] at h
      have hother : (sv.onSession k fun s => (s.pushReplicationPayload encoded).2).sessions j = sv.sessions j :=
        Function.update_of_ne (Ne.symm hk) _ _
      rw [ih h, hother]

/-- A push takes along what was in the buffer. -/
theorem sessions_propagateCommand {j : Nat} (req : RespValue) (hrole : sv.repl.role = .master)
    (h : sv.repl.replicas.count j = 1) :
    (sv.propagateCommand req).sessions j =
      { writeBuf := [], sent := (sv.sessions j).sent ++ ((sv.sessions j).writeBuf ++ encode req) } := by
  unfold Server.propagateCommand
  rw [if_pos hrole]
  unfold Server.fanoutToReplicas
  rw [foldl_push_once (encode_ne_nil req)]
  show (sv.repl.propagateCommand req).replicas.count j = 1
  rw [Replication.propagateCommand_replicas]
  exact h

/-- The server with the reply in the buffer of session `i`. -/
def replied (i : Nat) (r : RespValue × KvContext × Server F) : Server F :=
  if r.1.isNone then r.2.2 else r.2.2.onSession i (·.appendResponse r.1)

theorem replied_spec {i j : Nat} (hij : i ≠ j) (r : RespValue × KvContext × Server F) :
    (replied i r).repl = r.2.2.repl ∧ (replied i r).store = r.2.2.store ∧ (replied i r).waiters = r.2.2.waiters ∧
      (replied i r).sessions j = r.2.2.sessions j := by
  unfold replied
  by_cases hr : r.1.isNone = true
  · rw [if_pos hr]
    exact ⟨rfl, rfl, rfl, rfl⟩
  · rw [if_neg hr]
    exact ⟨rfl, rfl, rfl, Function.update_of_ne (Ne.symm hij) _ _⟩

theorem record_write {conn : Conn} {rsp : RespValue} (sv : Server F) (hact : conn.replActive = true)
    (h : rsp.isError = false ∧ isMutatingCommand (upperCmd req) = true) :
    ∃ aof, conn.record req rsp sv = ({ sv with aof } : Server F).propagateCommand req := by
  unfold Conn.record
  rw [hact, h.1, h.2, Bool.or_true, Bool.not_false, Bool.and_true, Bool.and_true, if_pos rfl, if_pos rfl]
  unfold Server.append
  repeat' split
  · exact ⟨_, rfl⟩
  · exact ⟨sv.aof, rfl⟩
  · exact ⟨sv.aof, rfl⟩

theorem store_propagateCommand (req : RespValue) (sv : Server F) :
    (sv.propagateCommand req).store = sv.store ∧ (sv.propagateCommand req).waiters = sv.waiters ∧
      (sv.propagateCommand req).repl.role = sv.repl.role := by
  have hrole : (sv.repl.propagateCommand req).role = sv.repl.role := Replication.propagateCommand_role sv.repl req
  unfold Server.propagateCommand
  split
  · obtain ⟨sessions, h⟩ :=
      Server.fanoutToReplicas_frame (encode req) { sv with repl := sv.repl.propagateCommand req }
    rw [h]
    exact ⟨rfl, rfl, hrole⟩
  · exact ⟨rfl, rfl, rfl⟩

end

/-- What was pushed to session `j` since `before` is `stream`, and `replica` with it has the master's contents. -/
structure Followed (lo hi : Int) (i j : Nat) (before : Bytes) (replica : Server F) (stream : List RespValue)
    (sys : System F) : Prop where
  role : sys.server.repl.role = .master
  attached : sys.server.repl.replicas.count j = 1
  drained : (sys.server.sessions j).writeBuf = []
  waiters : sys.server.waiters = []
  queue : QueueOk (sys.conns i).ctx
  active : (sys.conns i).replActive = true
  sent : (sys.server.sessions j).sent = before ++ stream.flatMap encode
  wire : ∀ req ∈ stream, wire req = true
  applied : ∀ envs : Nat → Env, (∀ n, Within lo hi (envs n)) →
    Applied lo hi sys.server.store (applyAll (fun n => applyOne (envs n)) 0 stream replica)

namespace Followed

variable {lo hi : Int} {i j : Nat} {before : Bytes} {replica : Server F} {stream : List RespValue} {sys : System F}
  {env : Env} {req : RespValue}

theorem start {sv : Server F} (h : Paired lo hi j sv replica) (hij : i ≠ j) (addr : Bytes) :
    Followed lo hi i j (sv.sessions j).sent replica [] (({ server := sv } : System F).step (.accept i addr)) := by
  have hsession : (Function.update sv.sessions i {}) j = sv.sessions j := Function.update_of_ne (Ne.symm hij) _ _
  have hconn : ((({ server := sv } : System F).step (.accept i addr)).conns i) =
      { ctx := { session := some i, clientId := i, clientAddr := addr, authenticated := !sv.isAuthRequired }
        aofActive := sv.aof.enabled, replActive := sv.repl.role == .master, phase := .reading } :=
    Function.update_self ..
  refine ⟨h.role, h.attached, ?_, h.waiters, ?_, ?_, ?_, ?_, fun envs _ => ⟨h.idle, h.noEvict, h.alike⟩⟩
  · show ((Function.update sv.sessions i {}) j).writeBuf = []
    rw [hsession]
    exact h.drained
  · rw [hconn]
    intro q hq
    cases hq
  · rw [hconn]
    simp [h.role]
  · show ((Function.update sv.sessions i {}) j).sent = _
    rw [hsession, List.flatMap_nil, List.append_nil]
  · intro req hr
    cases hr

theorem quiet (h : Followed lo hi i j before replica stream sys) (hw : Within lo hi env) :
    Quiet lo hi sys.server.store := (h.applied (fun _ => env) fun _ => hw).alike.quietL

/-- A write that fails, or is turned away, is not pushed. -/
theorem unlogged (h : Followed lo hi i j before replica stream sys) (hij : i ≠ j)
    (hm : isMutatingCommand (upperCmd req) = true) (hw : Within lo hi env)
    (hu : Unlogged env.now (sys.conns i).ctx sys.server (dispatch env req (sys.conns i).ctx sys.server))
    (hno : ¬ IsWrite env req (sys.conns i).ctx sys.server) :
    Followed lo hi i j before replica stream (sys.serve i env req) := by
  obtain ⟨store, waiters, slowlog, hsv⟩ := dispatch_frame hm env (sys.conns i).ctx sys.server
  obtain ⟨hrepl, hstore, hwait, hsession⟩ := replied_spec hij (dispatch env req (sys.conns i).ctx sys.server)
  have hserver : (sys.serve i env req).server = replied i (dispatch env req (sys.conns i).ctx sys.server) :=
    record_unlogged hno
  have hconn : (sys.serve i env req).conns i = { sys.conns i with
      ctx := (dispatch env req (sys.conns i).ctx sys.server).2.1, phase := .serving } := Function.update_self ..
  have hrepl' : (sys.serve i env req).server.repl = sys.server.repl := by rw [hserver, hrepl, hsv]
  have hsession' : (sys.serve i env req).server.sessions j = sys.server.sessions j := by rw [hserver, hsession, hsv]
  refine ⟨?_, ?_, ?_, ?_, ?_, ?_, ?_, h.wire, fun envs he => ?_⟩
  · rw [hrepl']
    exact h.role
  · rw [hrepl']
    exact h.attached
  · rw [hsession']
    exact h.drained
  · rw [hserver, hwait, hu.waiters]
    exact h.waiters
  · rw [hconn]
    exact hu.queue
  · rw [hconn]
    exact h.active
  · rw [hsession']
    exact h.sent
  · have ha := h.applied envs he
    rw [hserver, hstore]
    exact ⟨ha.waiters, ha.noEvict, ha.alike.same_left hw hu.items⟩

/-- A write that is carried out is pushed, and the replica does the same. -/
theorem logged (h : Followed lo hi i j before replica stream sys) (hij : i ≠ j) {c : Command} (hw : Within lo hi env)
    (hn : sys.server.store.conf.NoEvict) (hf : fate (sys.conns i).ctx sys.server req = .runs c)
    (hok : WriteOk lo hi 0 env req (sys.conns i).ctx sys.server c)
    (hwrite : IsWrite env req (sys.conns i).ctx sys.server) :
    Followed lo hi i j before replica (stream ++ [req]) (sys.serve i env req) := by
  obtain ⟨hrepl, hstore, hwait, hsession⟩ := replied_spec hij (dispatch env req (sys.conns i).ctx sys.server)
  obtain ⟨⟨store, slowlog, hsv⟩, hctx⟩ := dispatch_wrote hf hok.mutating hok.db h.waiters hwrite.1
  obtain ⟨aof, hrec⟩ := record_write (replied i (dispatch env req (sys.conns i).ctx sys.server)) h.active hwrite
  have hserver : (sys.serve i env req).server =
      ({ replied i (dispatch env req (sys.conns i).ctx sys.server) with aof } : Server F).propagateCommand req := hrec
  have hconn : (sys.serve i env req).conns i = { sys.conns i with
      ctx := (dispatch env req (sys.conns i).ctx sys.server).2.1, phase := .serving } := Function.update_self ..
  generalize hsv' : ({ replied i (dispatch env req (sys.conns i).ctx sys.server) with aof } : Server F) = sv'
    at hserver
  have hrepl' : sv'.repl = sys.server.repl := by
    rw [← hsv']
    exact hrepl.trans (by rw [hsv])
  have hstore' : sv'.store = (dispatch env req (sys.conns i).ctx sys.server).2.2.store := by
    rw [← hsv']
    exact hstore
  have hwait' : sv'.waiters = [] := by
    rw [← hsv']
    exact hwait.trans (by rw [hsv])
  have hsession' : sv'.sessions j = sys.server.sessions j := by
    rw [← hsv']
    exact hsession.trans (by rw [hsv])
  obtain ⟨hs1, hs2, hs3⟩ := store_propagateCommand req sv'
  have hbuf : (sv'.sessions j).writeBuf = [] := by
    rw [hsession']
    exact h.drained
  have hpushed := sessions_propagateCommand req (hrepl' ▸ h.role) (hrepl' ▸ h.attached)
  rw [hbuf, List.nil_append, hsession'] at hpushed
  refine ⟨?_, ?_, ?_, ?_, ?_, ?_, ?_, ?_, fun envs he => ?_⟩
  · rw [hserver, hs3, hrepl']
    exact h.role
  · rw [hserver, replicas_propagateCommand, hrepl']
    exact h.attached
  · rw [hserver, hpushed]
  · rw [hserver, hs2]
    exact hwait'
  · rw [hconn, hctx]
    exact h.queue
  · rw [hconn]
    exact h.active
  · rw [hserver, hpushed, List.flatMap_append, List.flatMap_singleton, ← List.append_assoc, ← h.sent]
  · intro r hr
    rcases List.mem_append.mp hr with hr | hr
    · exact h.wire r hr
    · rw [List.mem_singleton.mp hr]
      exact hok.wire
  · rw [hserver, hs1, hstore', applyAll_append]
    exact (h.applied envs he).write hf hok hwrite h.waiters hn hw (he _)

theorem step (h : Followed lo hi i j before replica stream sys) (hij : i ≠ j) (hc : Copied lo hi i sys (env, req)) :
    ∃ more, Followed lo hi i j before replica (stream ++ more) (sys.step (.request i env req)) ∧ more.length ≤ 1 := by
  obtain ⟨hm, hfaith⟩ := hc
  by_cases hr : sys.Ready i
  · obtain ⟨hw, hn, hok⟩ := hfaith hr
    have hstep : sys.step (.request i env req) = sys.serve i env req := if_pos hr
    rw [hstep]
    by_cases hwrite : IsWrite env req (sys.conns i).ctx sys.server
    · obtain ⟨c, hf, hwok⟩ := writeOk_of_isWrite hok hwrite
      exact ⟨[req], h.logged hij hw hn hf hwok hwrite, Nat.le_refl 1⟩
    · obtain ⟨hu, -⟩ := dispatch_unlogged hok h.queue h.waiters hn (h.quiet hw) hwrite
      refine ⟨[], ?_, Nat.zero_le 1⟩
      rw [List.append_nil]
      exact h.unlogged hij hm hw hu hwrite
  · have hstep : sys.step (.request i env req) = sys := if_neg hr
    rw [hstep]
    exact ⟨[], by rwa [List.append_nil], Nat.zero_le 1⟩

theorem run (cmds : List (Env × RespValue)) (h : Followed lo hi i j before replica stream sys) (hij : i ≠ j)
    (hc : CopiedRun lo hi i sys cmds) :
    ∃ more, Followed lo hi i j before replica (stream ++ more) (sys.run (cmds.map fun c => .request i c.1 c.2)) ∧
      more.length ≤ cmds.length := by
  induction cmds generalizing stream sys with
  | nil => exact ⟨[], by rwa [List.append_nil], Nat.le_refl 0⟩
  | cons c cmds ih =>
    obtain ⟨first, hfirst, hlen⟩ := h.step hij hc.1
    obtain ⟨more, hmore, hlen'⟩ := ih hfirst hc.2
    refine ⟨first ++ more, ?_, ?_⟩
    · rw [← List.append_assoc]
      exact hmore
    · rw [List.length_append, List.length_cons]
      omega

end Followed

/-! ## Top theorem -/

/-- What was pushed to the session, read and applied as `runSlaveSyncOnce` does, gives the replica the contents of
the master in every database. -/
theorem copied_run {lo hi : Int} {i j : Nat} {sv replica : Server F} (h : Paired lo hi j sv replica) (hij : i ≠ j)
    (addr : Bytes) (cmds : List (Env × RespValue))
    (hrun : CopiedRun lo hi i (({ server := sv } : System F).step (.accept i addr)) cmds)
    (envs : Nat → Env) (he : ∀ n, Within lo hi (envs n)) :
    let sys := ({ server := sv } : System F).run (clientRun i addr cmds)
    ∃ stream, (sys.server.sessions j).sent = (sv.sessions j).sent ++ stream ∧
      (follow envs (cmds.length + 1) stream replica).1 = .done ∧
      ∀ now, lo ≤ now → now ≤ hi → ∀ db,
        (follow envs (cmds.length + 1) stream replica).2.2.store.view now db = sys.server.store.view now db := by
  intro sys
  obtain ⟨more, hend, hlen⟩ := (Followed.start h hij addr).run cmds hij hrun
  have hscan := scan_encode (fun n => applyOne (envs n)) more hend.wire (cmds.length + 1) (Nat.lt_succ_of_le hlen) 0 0
    replica
  refine ⟨more.flatMap encode, ?_, ?_, ?_⟩
  · exact hend.sent
  · rw [follow, hscan]
  · intro now h1 h2 db
    rw [follow, hscan]
    funext key
    exact ((hend.applied envs he).alike.live ⟨h1, h2⟩ ⟨h1, h2⟩ db key).symm

/-- A master with a replica on session 7, and the replica. -/
def supplied : Server Int := { store := .empty, repl := { replId := [], replicas := [7] } }

theorem paired_supplied : Paired 1 1 7 supplied logging := by
  refine ⟨rfl, rfl, rfl, rfl, rfl, .inl (Int.le_refl 0), ?_, ?_, ?_⟩
  · rfl
  · exact quiet_of_items fun _ _ => rfl
  · exact quiet_of_items fun _ _ => rfl

/-- Commands of a client at time 1. -/
def allAt1 (cmds : List (List String)) : List (Env × RespValue) := cmds.map fun args => ({ now := 1 }, command args)

/-- Back in database 0, a client's writes are the replica's. -/
theorem copied_run_two :
    let sys := ({ server := supplied } : System Int).run
      (clientRun 0 [] (allAt1 [["INCR", "k"], ["SELECT", "1"], ["SELECT", "0"], ["APPEND", "k", "x"]]))
    ∃ stream, (sys.server.sessions 7).sent = stream ∧
      (follow (fun _ => { now := 1 }) 5 stream logging).2.2.store.view 1 0 = sys.server.store.view 1 0 := by
  intro sys
  have hrun : CopiedRun 1 1 0 (({ server := supplied } : System Int).step (.accept 0 []))
      (allAt1 [["INCR", "k"], ["SELECT", "1"], ["SELECT", "0"], ["APPEND", "k", "x"]]) := by
    refine ⟨⟨by decide, faithful_of_check (by decide)⟩, ⟨by decide, faithful_of_check (by decide)⟩,
      ⟨by decide, faithful_of_check (by decide)⟩, ⟨by decide, faithful_of_check (by decide)⟩, trivial⟩
  obtain ⟨stream, hsent, -, hview⟩ := copied_run paired_supplied (by decide : 0 ≠ 7) [] _ hrun (fun _ => { now := 1 })
    fun _ => ⟨Int.le_refl 1, Int.le_refl 1⟩
  exact ⟨stream, hsent, hview 1 (Int.le_refl 1) (Int.le_refl 1) 0⟩

/-- A client selects database 1 and writes `k` there; the replica has it in database 0. -/
theorem applied_elsewhere :
    let sys := ({ server := supplied } : System Int).run
      (clientRun 0 [] (allAt1 [["SELECT", "1"], ["SET", "k", "v"]]))
    (follow (fun _ => { now := 1 }) 3 (sys.server.sessions 7).sent logging).2.2.store.view 1 1 ≠
      sys.server.store.view 1 1 := by
  intro sys h
  have hk := congrArg Option.isSome (congrFun h (lit "k"))
  revert hk
  decide

end Kv
