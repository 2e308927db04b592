import ZeroFrameworks.Kv.Persistence.AofGates
import ZeroFrameworks.Kv.Server.Mirror
import ZeroFrameworks.Kv.Server.System

/-!
# The log as an image of the store

`Mirror` says that the log holds the writes that were carried out, in order, and that replaying it on
a fresh server leads to the live contents and to the database `sel`.  Requests that are `Reproducible`
keep it, so do the other turns of the server except a rewrite of the log.

    every request of a run is reproducible →
      the log is the writes of the run, each once, and replays to the store   (mirror_run)
-/

namespace Kv

variable {F : Type} [Platform F]

/-! ## Writes of a run -/

/-- The writes of a queue that EXEC carries out. -/
def queueWrites (env : Env) : List RespValue → KvContext → Server F → List RespValue
  | [], _, _ => []
  | req :: rest, ctx, sv =>
    let r := dispatchExecOne handleQueued env req ctx sv
    (if r.1.isError = false ∧ isMutatingCommand (upperCmd req) = true then [req] else []) ++
      queueWrites env rest r.2.1 (recordQueued req r.1 r.2.2)

/-- The writes a request carries out: itself, or the writes of the queue EXEC runs. -/
def requestWrites (env : Env) (req : RespValue) (ctx : KvContext) (sv : Server F) : List RespValue :=
  match fate ctx sv req with
  | .runs .exec =>
    let conflict := sv.onStore (Commands.watchConflict ctx.watched) env
    if req.items.length = 1 ∧ ctx.multiMode ∧ conflict.1 = false then
      queueWrites env ctx.multiQueue (Commands.endMulti ctx) conflict.2
    else []
  | .runs _ => if IsWrite env req ctx sv then [req] else []
  | _ => []

namespace System

def eventWrites (sys : System F) : Event → List RespValue
  | .request i env req =>
    if sys.Ready i then requestWrites env req (sys.conns i).ctx sys.server else []
  | _ => []

/-- The writes carried out in a run, in order. -/
def writes (sys : System F) : List Event → List RespValue
  | [] => []
  | e :: events => sys.eventWrites e ++ (sys.step e).writes events

end System

/-! ## Invariant -/

/-- Where a replay stands: in database `sel`, with open gates, on the contents of `live`. -/
structure Replayed (lo hi sel : Int) (live : KvStore F) (st : KvContext × Server F) : Prop where
  conn : st.1 = { db := sel }
  pass : st.2.requirePass = []
  role : st.2.repl.role = .master
  waiters : st.2.waiters = []
  noEvict : st.2.store.conf.NoEvict
  alike : Alike lo hi live st.2.store

/-- The log is `log`, and its replay on `fresh` leads to the live contents. -/
structure Mirror (lo hi : Int) (fresh : Server F) (sel : Int) (log : List RespValue) (sys : System F) :
    Prop where
  span : lo ≤ hi
  data : sys.server.aof.data = log.flatMap encode
  wire : ∀ req ∈ log, wire req = true
  enabled : sys.server.aof.enabled = true
  waiters : sys.server.waiters = []
  queues : ∀ i, QueueOk (sys.conns i).ctx
  active : ∀ i, (sys.conns i).phase ≠ .closed → (sys.conns i).aofActive = true
  replayed : ∀ envs, (∀ n, Within lo hi (envs n)) →
    Replayed lo hi sel sys.server.store (replayCommands envs 0 log ({}, fresh))

/-! ## Lemmas -/

variable {c : Command}

section

variable {lo hi sel : Int} {env : Env} {req : RespValue} {ctx : KvContext} {sv : Server F}

theorem queueWrites_nil (queue : List RespValue) (hq : ∀ q ∈ queue, RequestIs Command.harmless q)
    (ctx : KvContext) (sv : Server F) : queueWrites env queue ctx sv = [] := by
  induction queue generalizing ctx sv with
  | nil => rfl
  | cons q rest ih =>
    have hm := (idle_harmless (F := F) 0 0).not_mutating (hq q List.mem_cons_self)
    rw [queueWrites, ih fun r hr => hq r (List.mem_cons_of_mem _ hr)]
    rw [hm, if_neg fun h => Bool.false_ne_true h.2, List.nil_append]

theorem requestWrites_of_not_isWrite (hq : QueueOk ctx) (hno : ¬ IsWrite env req ctx sv) :
    requestWrites env req ctx sv = [] := by
  unfold requestWrites
  split
  · dsimp only
    split
    · exact queueWrites_nil _ hq _ _
    · rfl
  · rw [if_neg hno]
  · rfl

theorem requestWrites_of_isWrite (hf : fate ctx sv req = .runs c)
    (hwrite : IsWrite env req ctx sv) : requestWrites env req ctx sv = [req] := by
  unfold requestWrites
  rw [hf]
  split
  next h =>
    cases h
    have hm := mutating_of_fate hf
    rw [hwrite.2] at hm
    cases hm
  · rw [if_pos hwrite]
  next h => exact absurd rfl (h c)

theorem propagateCommand_frame (req : RespValue) (sv : Server F) :
    ∃ repl sessions, sv.propagateCommand req = { sv with repl := repl, sessions := sessions } := by
  unfold Server.propagateCommand
  split
  · obtain ⟨sessions, h⟩ :=
      Server.fanoutToReplicas_frame (encode req) { sv with repl := sv.repl.propagateCommand req }
    exact ⟨_, sessions, h⟩
  · exact ⟨sv.repl, sv.sessions, rfl⟩

theorem record_unlogged {conn : Conn} {rsp : RespValue}
    (h : ¬ (rsp.isError = false ∧ isMutatingCommand (upperCmd req) = true)) :
    conn.record req rsp sv = sv := by
  unfold Conn.record
  rw [if_neg]
  simp only [Bool.and_eq_true, Bool.not_eq_true']
  exact fun hb => h ⟨hb.1.2, hb.2⟩

theorem record_logged (sv : Server F) {conn : Conn} {rsp : RespValue} (hact : conn.aofActive = true)
    (h : rsp.isError = false ∧ isMutatingCommand (upperCmd req) = true) :
    ∃ repl sessions, conn.record req rsp sv =
      { sv.append req with repl := repl, sessions := sessions } := by
  unfold Conn.record
  rw [hact, h.1, h.2, Bool.true_or, Bool.not_false, Bool.and_true, Bool.and_true, if_pos rfl,
    if_pos rfl]
  split
  · exact propagateCommand_frame req _
  · exact ⟨_, _, rfl⟩

/-! ## One turn -/

theorem runs_unique {ctx' : KvContext} {sv' : Server F} {c c' : Command}
    (h : fate ctx sv req = .runs c) (h' : fate ctx' sv' req = .runs c') : c = c' := by
  obtain ⟨name, hname, -, -, hl⟩ := fate_runs h
  obtain ⟨name', hname', -, -, hl'⟩ := fate_runs h'
  rw [hname] at hname'
  cases hname'
  rw [hl] at hl'
  exact Option.some.inj hl'

theorem Replayed.step {env' : Env} {st : KvContext × Server F}
    (h : Replayed lo hi sel sv.store st) (hf : fate ctx sv req = .runs c)
    (hw : WriteOk lo hi sel env req ctx sv c) (hwrite : IsWrite env req ctx sv)
    (hwait : sv.waiters = []) (hn : sv.store.conf.NoEvict) (h1 : Within lo hi env)
    (h2 : Within lo hi env') :
    Replayed lo hi (nextSel sel req ctx sv) (dispatch env req ctx sv).2.2.store
      (replayOne env' req st) := by
  obtain ⟨ctx', sv'⟩ := st
  obtain rfl : ctx' = { db := sel } := h.conn
  have hgates : (∃ c, fate { db := sel } sv' req = .runs c) ↔ _ :=
    fate_of_mutating hwrite.2 rfl rfl rfl rfl
  obtain ⟨c', hf'⟩ := hgates.mpr ⟨h.pass, h.role⟩
  obtain rfl := runs_unique hf hf'
  have hagree : Agree lo hi sv.store sv'.store := ⟨h.alike, hn, h.noEvict⟩
  obtain ⟨hrsp, hstore⟩ :=
    dispatch_agree hf hf' hw.mutating hw.repeatable hw.db h1 h2 hwait h.waiters hagree
  have herr : (dispatch env' req { db := sel } sv').1.isError = false := by
    rw [← hrsp]
    exact hwrite.1
  have hwrote : Wrote (nextSel sel req { db := sel } sv') { db := sel } sv' _ :=
    dispatch_wrote hf' hw.mutating (.inr rfl) h.waiters herr
  obtain ⟨⟨store, slowlog, hserver⟩, hconn⟩ := hwrote
  rw [nextSel_of_runs hf', ← nextSel_of_runs hf] at hconn
  have hctx : (replayOne env' req ({ db := sel }, sv')).1 = { db := nextSel sel req ctx sv } := by
    simp only [replayOne, hconn]
  have hsv : (replayOne env' req ({ db := sel }, sv')).2 =
      { sv' with store := store, slowlog := slowlog, waiters := [] } := hserver
  have halike := hstore.toAlike
  have hconf := hstore.noEvictR
  rw [hserver] at halike hconf
  refine ⟨hctx, ?_, ?_, ?_, ?_, ?_⟩ <;> rw [hsv]
  · exact h.pass
  · exact h.role
  · exact hconf
  · exact halike

end

variable {i : Nat}

namespace Mirror

variable {lo hi sel : Int} {fresh : Server F} {log : List RespValue} {sys : System F} {env : Env}

theorem of_same {sys' : System F} {now : Int} (h : Mirror lo hi fresh sel log sys)
    (hnow : lo ≤ now ∧ now ≤ hi) (hitems : SameItems now sys.server.store sys'.server.store)
    (hdata : sys'.server.aof.data = sys.server.aof.data)
    (henabled : sys'.server.aof.enabled = sys.server.aof.enabled)
    (hwaiters : sys'.server.waiters = []) (hqueues : ∀ i, QueueOk (sys'.conns i).ctx)
    (hactive : ∀ i, (sys'.conns i).phase ≠ .closed → (sys'.conns i).aofActive = true) :
    Mirror lo hi fresh sel log sys' where
  span := h.span
  data := hdata.trans h.data
  wire := h.wire
  enabled := henabled.trans h.enabled
  waiters := hwaiters
  queues := hqueues
  active := hactive
  replayed envs he :=
    let r := h.replayed envs he
    { r with alike := r.alike.same_left hnow hitems }

theorem quiet (h : Mirror lo hi fresh sel log sys) (hw : Within lo hi env) :
    Quiet lo hi sys.server.store := (h.replayed (fun _ => env) fun _ => hw).alike.quietL

theorem queues_update {conns : Nat → Conn} (h : ∀ j, QueueOk (conns j).ctx) {c : Conn}
    (hc : QueueOk c.ctx) (j : Nat) : QueueOk (Function.update conns i c j).ctx := by
  by_cases hj : j = i
  · subst hj
    rw [Function.update_self]
    exact hc
  · rw [Function.update_of_ne hj]
    exact h j

theorem active_update {conns : Nat → Conn}
    (h : ∀ j, (conns j).phase ≠ .closed → (conns j).aofActive = true) {c : Conn}
    (hc : c.phase ≠ .closed → c.aofActive = true) (j : Nat) :
    (Function.update conns i c j).phase ≠ .closed → (Function.update conns i c j).aofActive = true := by
  by_cases hj : j = i
  · subst hj
    rw [Function.update_self]
    exact hc
  · rw [Function.update_of_ne hj]
    exact h j

theorem leave (h : Mirror lo hi fresh sel log sys) (i : Nat) :
    Mirror lo hi fresh sel log (sys.leave i) := by
  refine h.of_same ⟨Int.le_refl lo, h.span⟩ (.of_item rfl) rfl rfl ?_ ?_ ?_
  · show sys.server.waiters.filter _ = []
    rw [h.waiters]
    rfl
  · exact queues_update h.queues fun q hm => by cases hm
  · exact active_update h.active fun hc => absurd rfl hc

theorem setConn (h : Mirror lo hi fresh sel log sys) {c : Conn} (hq : QueueOk c.ctx)
    (ha : c.phase ≠ .closed → c.aofActive = true) : Mirror lo hi fresh sel log (sys.setConn i c) :=
  h.of_same ⟨Int.le_refl lo, h.span⟩ (.of_item rfl) rfl rfl h.waiters (queues_update h.queues hq)
    (active_update h.active ha)

theorem onSession (h : Mirror lo hi fresh sel log sys) (i : Nat) (f : Session → Session) :
    Mirror lo hi fresh sel log { sys with server := sys.server.onSession i f } :=
  h.of_same ⟨Int.le_refl lo, h.span⟩ (.of_item rfl) rfl rfl h.waiters h.queues h.active

theorem flush (h : Mirror lo hi fresh sel log sys) (hs : (sys.conns i).phase = .serving) :
    Mirror lo hi fresh sel log (sys.flush i) := by
  have hact := h.active i (by rw [hs]; exact fun h => by cases h)
  have hsent := h.onSession i fun _ => ((sys.server.sessions i).flushResponses).2
  unfold System.flush
  dsimp only
  split
  · exact hsent.leave i
  · split
    · exact hsent.setConn (h.queues i) fun _ => hact
    · split
      · exact hsent.leave i
      · exact hsent.setConn (h.queues i) fun _ => hact

theorem accept (h : Mirror lo hi fresh sel log sys) (i : Nat) (addr : Bytes) :
    Mirror lo hi fresh sel log (sys.accept i addr) := by
  refine h.of_same ⟨Int.le_refl lo, h.span⟩ (.of_item rfl) rfl rfl h.waiters ?_ ?_
  · exact queues_update h.queues fun q hm => by cases hm
  · exact active_update h.active fun _ => h.enabled

theorem reply_frame (i : Nat) (rsp : RespValue) (sv : Server F) :
    ∃ sessions, (if rsp.isNone then sv else sv.onSession i (·.appendResponse rsp)) =
      { sv with sessions := sessions } := by
  split
  · exact ⟨sv.sessions, rfl⟩
  · exact ⟨_, rfl⟩

theorem serve_unlogged (h : Mirror lo hi fresh sel log sys) {req : RespValue}
    (hw : Within lo hi env) (hact : (sys.conns i).aofActive = true)
    (hu : Unlogged env.now (sys.conns i).ctx sys.server (dispatch env req (sys.conns i).ctx sys.server))
    (hno : ¬ IsWrite env req (sys.conns i).ctx sys.server) :
    Mirror lo hi fresh sel log (sys.serve i env req) := by
  obtain ⟨sessions, hreply⟩ := reply_frame i (dispatch env req (sys.conns i).ctx sys.server).1
    (dispatch env req (sys.conns i).ctx sys.server).2.2
  unfold System.serve
  dsimp only
  rw [hreply, record_unlogged hno]
  refine h.of_same hw hu.items hu.aof.1 hu.aof.2 (hu.waiters.trans h.waiters) ?_ ?_
  · exact queues_update h.queues hu.queue
  · exact active_update h.active fun _ => hact

theorem serve_logged (h : Mirror lo hi fresh sel log sys) {req : RespValue}
    (hw : Within lo hi env) (hact : (sys.conns i).aofActive = true)
    (hn : sys.server.store.conf.NoEvict)
    (hf : fate (sys.conns i).ctx sys.server req = .runs c)
    (hok : WriteOk lo hi sel env req (sys.conns i).ctx sys.server c)
    (hwrite : IsWrite env req (sys.conns i).ctx sys.server) :
    Mirror lo hi fresh (nextSel sel req (sys.conns i).ctx sys.server) (log ++ [req])
      (sys.serve i env req) := by
  obtain ⟨sessions, hreply⟩ := reply_frame i (dispatch env req (sys.conns i).ctx sys.server).1
    (dispatch env req (sys.conns i).ctx sys.server).2.2
  obtain ⟨repl, sessions', hrec⟩ := record_logged
    { (dispatch env req (sys.conns i).ctx sys.server).2.2 with sessions := sessions }
    hact hwrite
  obtain ⟨⟨store, slowlog, hserver⟩, hconn⟩ :=
    dispatch_wrote hf hok.mutating hok.db h.waiters hwrite.1
  unfold System.serve
  dsimp only
  rw [hreply, hrec, hconn]
  have hstep := fun envs (he : ∀ n, Within lo hi (envs n)) =>
    (h.replayed envs he).step hf hok hwrite h.waiters hn hw (he (0 + log.length))
  rw [hserver] at hstep ⊢
  unfold Server.append
  rw [if_pos h.enabled]
  refine ⟨h.span, ?_, ?_, h.enabled, rfl, ?_, ?_, fun envs he => ?_⟩
  · show sys.server.aof.data ++ encode req = _
    rw [h.data, List.flatMap_append, List.flatMap_singleton]
  · intro r hr
    rcases List.mem_append.mp hr with hr | hr
    · exact h.wire r hr
    · rw [List.mem_singleton.mp hr]
      exact hok.wire
  · exact queues_update h.queues (h.queues i)
  · exact active_update h.active fun _ => hact
  · rw [replayCommands_append]
    exact hstep envs he

end Mirror

/-! ## Runs -/

section

variable {lo hi sel : Int} {fresh : Server F} {log : List RespValue} {sys : System F}

/-- A turn after which the log is still an image of the store: a request is reproducible, and the
log is not rewritten. -/
def Faithful (lo hi sel : Int) (sys : System F) : Event → Prop
  | .request i env req => sys.Ready i → Within lo hi env ∧ sys.server.store.conf.NoEvict ∧
      Reproducible lo hi sel env req (sys.conns i).ctx sys.server
  | .expireTimer env => Within lo hi env
  | .bgrewriteJob _ => sys.server.bgrewriteRunning = false
  | _ => True

/-- The database of the last SELECT after a turn. -/
def selAfter (sel : Int) (sys : System F) : Event → Int
  | .request i _ req => if sys.Ready i then nextSel sel req (sys.conns i).ctx sys.server else sel
  | _ => sel

/-- All turns of a run are faithful; `sel` is the database of the last SELECT. -/
def FaithfulRun (lo hi : Int) : Int → System F → List Event → Prop
  | _, _, [] => True
  | sel, sys, e :: events =>
    Faithful lo hi sel sys e ∧ FaithfulRun lo hi (selAfter sel sys e) (sys.step e) events

theorem Mirror.request (h : Mirror lo hi fresh sel log sys) {env : Env} {req : RespValue}
    (hr : sys.Ready i) (hw : Within lo hi env) (hn : sys.server.store.conf.NoEvict)
    (hok : Reproducible lo hi sel env req (sys.conns i).ctx sys.server) :
    Mirror lo hi fresh (nextSel sel req (sys.conns i).ctx sys.server)
      (log ++ requestWrites env req (sys.conns i).ctx sys.server) (sys.serve i env req) := by
  have hact : (sys.conns i).aofActive = true := by
    refine h.active i fun hc => ?_
    rcases hr.2.2 with hp | hp <;> rw [hp] at hc <;> cases hc
  by_cases hwrite : IsWrite env req (sys.conns i).ctx sys.server
  · obtain ⟨c, hf, hwok⟩ := writeOk_of_isWrite hok hwrite
    rw [requestWrites_of_isWrite hf hwrite]
    exact h.serve_logged hw hact hn hf hwok hwrite
  · obtain ⟨hu, hsel⟩ := dispatch_unlogged hok (h.queues i) h.waiters hn (h.quiet hw) hwrite
    rw [requestWrites_of_not_isWrite (h.queues i) hwrite, List.append_nil, hsel]
    exact h.serve_unlogged hw hact hu hwrite

theorem mirror_step (h : Mirror lo hi fresh sel log sys) (e : Event) (he : Faithful lo hi sel sys e) :
    Mirror lo hi fresh (selAfter sel sys e) (log ++ sys.eventWrites e) (sys.step e) := by
  have hlo : lo ≤ lo ∧ lo ≤ hi := ⟨Int.le_refl lo, h.span⟩
  cases e with
  | request i env req =>
    rw [selAfter, System.eventWrites, System.step]
    by_cases hr : sys.Ready i
    · rw [if_pos hr, if_pos hr, if_pos hr]
      obtain ⟨hw, hn, hok⟩ := he hr
      exact h.request hr hw hn hok
    · rw [if_neg hr, if_neg hr, if_neg hr, List.append_nil]
      exact h
  | accept i addr =>
    simp only [selAfter, System.eventWrites, List.append_nil, System.step]
    split
    · exact h.accept i addr
    · exact h
  | flush i =>
    simp only [selAfter, System.eventWrites, List.append_nil, System.step]
    split
    next hs => exact h.flush hs
    · exact h
  | hangup i =>
    simp only [selAfter, System.eventWrites, List.append_nil, System.step]
    split
    · exact h
    · exact h.leave i
  | expireTimer env =>
    simp only [selAfter, System.eventWrites, List.append_nil, System.step]
    have hpurge : Reads (KvStore.purgeExpiredActive System.kExpireScanPerDb : StoreM F _) :=
      KvStore.reads_purgeExpiredActive
    exact h.of_same he (hpurge env sys.server.store trivial trivial).item rfl rfl h.waiters h.queues
      h.active
  | saveTimer env =>
    simp only [selAfter, System.eventWrites, List.append_nil, System.step]
    exact h.of_same hlo (.of_item rfl) rfl rfl h.waiters h.queues h.active
  | bgsaveJob env =>
    simp only [selAfter, System.eventWrites, List.append_nil, System.step]
    split
    · exact h.of_same hlo (.of_item rfl) rfl rfl h.waiters h.queues h.active
    · exact h
  | bgrewriteJob env =>
    have hidle : sys.server.bgrewriteRunning = false := he
    simp only [selAfter, System.eventWrites, List.append_nil, System.step, hidle, Bool.false_eq_true,
      if_false]
    exact h

theorem mirror_run (events : List Event) (h : Mirror lo hi fresh sel log sys)
    (hrun : FaithfulRun lo hi sel sys events) :
    ∃ sel', Mirror lo hi fresh sel' (log ++ sys.writes events) (sys.run events) := by
  induction events generalizing sel log sys with
  | nil =>
    rw [System.writes, List.append_nil]
    exact ⟨sel, h⟩
  | cons e events ih =>
    obtain ⟨he, hrest⟩ := hrun
    rw [System.writes, ← List.append_assoc]
    exact ih (mirror_step h e he) hrest

/-- What the image is good for: the replay succeeds and gives the live contents. -/
theorem Mirror.replay_view (h : Mirror lo hi fresh sel log sys) (envs : Nat → Env)
    (he : ∀ n, Within lo hi (envs n)) (now : Int) (h1 : lo ≤ now) (h2 : now ≤ hi) :
    (replay envs sys.server.aof.data fresh).1 = .ok () ∧
      (replay envs sys.server.aof.data fresh).2.2.store.view now = sys.server.store.view now := by
  rw [h.data, replay_encode envs log h.wire fresh]
  refine ⟨rfl, ?_⟩
  funext db key
  exact ((h.replayed envs he).alike.live ⟨h1, h2⟩ ⟨h1, h2⟩ db key).symm

end

end Kv
