import ZeroFrameworks.Kv.Persistence.AofMirror

/-!
# Who writes snapshot files

SAVE and SHUTDOWN, the save timer and the job of BGSAVE.  `System.snapshots` lists the stores that a
turn writes to files, each as it stands at that moment.

    what a faithful turn writes out has the contents of the store   (same_snapshots)
    every file after it was there before, or is the dump of what it writes out   (files_step)
-/

namespace Kv

variable {F : Type} [Platform F]

/-! ## Specification -/

/-- The command dumps the store to a file. -/
def Command.saves (args : List RespValue) : Command → Bool
  | .server .save => args.length == 1
  | .server .shutdown => !(decide (2 ≤ args.length) && !nullAt args 1) || upperAt args 1 == lit "SAVE"
  | _ => false

def requestSaves (req : RespValue) : Bool :=
  match rawName req with
  | .error _ => false
  | .ok name => (lookup name).any (·.saves req.items)

/-- The stores that the queue of EXEC writes out. -/
def queueSnapshots (env : Env) : List RespValue → KvContext → Server F → List (KvStore F)
  | [], _, _ => []
  | req :: rest, ctx, sv =>
    let r := dispatchExecOne handleQueued env req ctx sv
    (if requestSaves req then [sv.store] else []) ++
      queueSnapshots env rest r.2.1 (recordQueued req r.1 r.2.2)

def requestSnapshots (env : Env) (req : RespValue) (ctx : KvContext) (sv : Server F) :
    List (KvStore F) :=
  match fate ctx sv req with
  | .runs .exec =>
    let conflict := sv.onStore (Commands.watchConflict ctx.watched) env
    if req.items.length = 1 ∧ ctx.multiMode ∧ conflict.1 = false then
      queueSnapshots env ctx.multiQueue (Commands.endMulti ctx) conflict.2
    else []
  | .runs c => if c.saves req.items then [sv.store] else []
  | _ => []

/-- The stores a turn writes out, with what the dump meets. -/
def System.snapshots (sys : System F) : Event → List (Env × KvStore F)
  | .request i env req =>
    if sys.Ready i then (requestSnapshots env req (sys.conns i).ctx sys.server).map (env, ·) else []
  | .saveTimer env => [(env, sys.server.store)]
  | .bgsaveJob env => if sys.server.bgsaveRunning then [(env, sys.server.store)] else []
  | _ => []

/-- The files of `sv'` were there in `sv`, or are dumps of `stores`. -/
def FilesFrom (env : Env) (stores : List (KvStore F)) (sv sv' : Server F) : Prop :=
  ∀ (path data : Bytes), sv'.files[path]? = some data →
    sv.files[path]? = some data ∨ ∃ t ∈ stores, data = dumpBinaryV2 env t

/-! ## Lemmas -/

variable {req : RespValue}

section

variable {env : Env} {args : List RespValue} {ctx : KvContext} {sv sv' : Server F} {c : Command}

namespace FilesFrom

variable {stores stores' : List (KvStore F)} {sv'' : Server F}

theorem of_eq (h : sv'.files = sv.files) : FilesFrom env stores sv sv' :=
  fun _ _ hd => .inl (h ▸ hd)

theorem trans (h : FilesFrom env stores sv sv') (h' : FilesFrom env stores' sv' sv'') :
    FilesFrom env (stores ++ stores') sv sv'' := by
  intro path data hd
  rcases h' path data hd with hd | ⟨t, ht, hd⟩
  · rcases h path data hd with hd | ⟨t, ht, hd⟩
    · exact .inl hd
    · exact .inr ⟨t, List.mem_append_left _ ht, hd⟩
  · exact .inr ⟨t, List.mem_append_right _ ht, hd⟩

theorem saveRdb : FilesFrom env [sv.store] sv (sv.saveRdb env) := by
  intro path data hd
  unfold Server.saveRdb at hd
  dsimp only at hd
  rw [Std.ExtTreeMap.getElem?_insert] at hd
  split at hd
  · cases hd
    exact .inr ⟨sv.store, List.mem_singleton_self _, rfl⟩
  · exact .inl hd

end FilesFrom

theorem files_ite {c : Prop} [Decidable c] {p q : RespValue × Server F} (hp : p.2.files = sv.files)
    (hq : q.2.files = sv.files) : (if c then p else q).2.files = sv.files := by
  split
  · exact hp
  · exact hq

theorem files_configSet : (Commands.configSet args sv).2.files = sv.files := by
  unfold Commands.configSet Commands.configSetKey
  repeat' apply files_ite
  all_goals rfl

theorem files_handleServer {c : ServerCommand} (h : (Command.server c).saves args = false) :
    (handleServer c env args ctx sv).2.2.files = sv.files := by
  cases c
  case save =>
    have hl : args.length ≠ 1 := by simpa [Command.saves] using h
    simp only [handleServer, Commands.save, if_pos hl]
  case shutdown =>
    simp only [Command.saves, Bool.or_eq_false_iff, Bool.not_eq_false', beq_eq_false_iff_ne] at h
    simp only [handleServer, Commands.shutdown, h.1]
    split
    · rfl
    · rw [if_pos ⟨trivial, h.2⟩]
  case config =>
    dsimp only [handleServer, Commands.config]
    repeat' split
    · rfl
    · rfl
    · exact files_configSet
    · rfl
  case watch =>
    have hloop : ∀ vs (ctx : KvContext) (sv : Server F),
        (Commands.watchLoop env ctx sv vs).2.2.files = sv.files := by
      intro vs
      induction vs with
      | nil => exact fun _ _ => rfl
      | cons v vs ih =>
        intro ctx sv
        unfold Commands.watchLoop
        split
        · rfl
        · exact ih _ _
    dsimp only [handleServer, Commands.watch]
    split
    · rfl
    · exact hloop _ _ _
  case publish =>
    dsimp only [handleServer, Commands.publish]
    repeat' split
    · rfl
    · rfl
    · obtain ⟨sessions, hs⟩ :=
        deliver_spec sv (sv.pubsub.deliveries env.order (strAt args 1) (strAt args 2))
      rw [hs]
  case psync =>
    simp only [handleServer, Commands.psync]
    repeat' split
    · rfl
    · rfl
    · rfl
    · unfold Commands.answerPsync
      repeat' split
      all_goals rfl
  all_goals
    simp only [handleServer, Commands.ping, Commands.echo, Commands.info, Commands.select,
      Commands.unwatch, Commands.multi, Commands.discard, Commands.role, Commands.slaveof,
      Commands.lastsave, Commands.bgrewriteaof, Commands.subscribe, Commands.psubscribe,
      Commands.subscribeCommand, Commands.unsubscribe, Commands.punsubscribe, Commands.leavePubsub,
      Commands.auth, Commands.bgsave, Commands.client, Commands.quit, Commands.script, Commands.time,
      Commands.slowlog]
    repeat' split
    all_goals rfl

theorem files_of_saves (h : c.saves args = true) :
    FilesFrom env [sv.store] sv (handleQueued c env args ctx sv).2.2 := by
  unfold Command.saves at h
  split at h
  · have hl : ¬ args.length ≠ 1 := by simpa using h
    simp only [handleQueued, handleBasic, handleServer, Commands.save, if_neg hl]
    exact .saveRdb
  · simp only [handleQueued, handleBasic, handleServer, Commands.shutdown]
    split
    next hno => exact .of_eq rfl
    · split
      · exact .of_eq rfl
      · exact .saveRdb
  · cases h

theorem files_handleQueued (hc : c.harmless = true) :
    FilesFrom env (if c.saves args then [sv.store] else []) sv (handleQueued c env args ctx sv).2.2 := by
  by_cases hs : c.saves args = true
  · rw [if_pos hs]
    exact files_of_saves hs
  · rw [if_neg hs]
    refine .of_eq ?_
    cases c with
    | store c => rfl
    | push c => rfl
    | server c => exact files_handleServer (Bool.not_eq_true _ ▸ hs)
    | eval => cases hc
    | evalsha => cases hc
    | exec => rfl

theorem files_dispatchExecOne (hr : RequestIs Command.harmless req) :
    FilesFrom env (if requestSaves req then [sv.store] else []) sv
      (dispatchExecOne handleQueued env req ctx sv).2.2 := by
  cases hname : rawName req with
  | error e => exact .of_eq (by simp only [dispatchExecOne, hname])
  | ok name =>
    cases hl : lookup name with
    | none => exact .of_eq (by simp only [dispatchExecOne, hname, hl])
    | some c =>
      simp only [dispatchExecOne, requestSaves, hname, hl, Option.any_some]
      exact files_handleQueued (hr name c hname hl)

theorem files_execQueue (queue : List RespValue) (hq : ∀ q ∈ queue, RequestIs Command.harmless q)
    (ctx : KvContext) (sv : Server F) :
    FilesFrom env (queueSnapshots env queue ctx sv) sv (execQueue env queue ctx sv).2.2 := by
  induction queue generalizing ctx sv with
  | nil => exact .of_eq rfl
  | cons req rest ih =>
    have hr := hq req List.mem_cons_self
    unfold execQueue queueSnapshots
    simp only [(idle_harmless (F := F) 0 0).recordQueued_eq hr]
    exact (files_dispatchExecOne hr).trans (ih (fun q hm => hq q (List.mem_cons_of_mem _ hm)) _ _)

theorem files_exec (hq : QueueOk ctx) (hf : fate ctx sv req = .runs .exec) :
    FilesFrom env (requestSnapshots env req ctx sv) sv (exec env req.items ctx sv).2.2 := by
  unfold requestSnapshots exec
  rw [hf]
  dsimp only
  by_cases hl : req.items.length = 1
  · rw [if_neg (not_not_intro hl)]
    cases hm : ctx.multiMode with
    | false => exact .of_eq rfl
    | true =>
      rw [Bool.not_true, if_neg Bool.false_ne_true]
      cases hc : (sv.onStore (Commands.watchConflict ctx.watched) env).1 with
      | true => exact .of_eq rfl
      | false =>
        rw [if_neg Bool.false_ne_true, if_pos ⟨hl, rfl, rfl⟩]
        exact files_execQueue _ hq _ _
  · rw [if_pos hl]
    exact .of_eq rfl

theorem files_dispatch (hq : QueueOk ctx)
    (hc : ∀ c, fate ctx sv req = .runs c → c.harmless = true ∨ c.mutating = true) :
    FilesFrom env (requestSnapshots env req ctx sv) sv (dispatch env req ctx sv).2.2 := by
  cases hf : fate ctx sv req with
  | refused rsp =>
    refine .of_eq ?_
    rw [dispatch, dispatchWith, hf]
  | queued =>
    refine .of_eq ?_
    rw [dispatch, dispatchWith, hf]
  | runs c =>
    have hslow : (dispatch env req ctx sv).2.2.files = (handle c env req.items ctx sv).2.2.files := by
      rw [(dispatch_of_runs env hf).2.2]
    have hhandle : FilesFrom env (requestSnapshots env req ctx sv) sv
        (handle c env req.items ctx sv).2.2 := by
      by_cases hx : c = .exec
      · subst hx
        exact files_exec hq hf
      · have hsnap : requestSnapshots env req ctx sv = if c.saves req.items then [sv.store] else [] := by
          unfold requestSnapshots
          rw [hf]
          split
          next he =>
            cases he
            exact absurd rfl hx
          next he =>
            cases he
            rfl
          next hno => exact absurd rfl (hno c)
        rw [hsnap, handle_eq_handleQueued hx]
        rcases hc c hf with hh | hm
        · exact files_handleQueued hh
        · obtain ⟨db, store, waiters, hframe⟩ := handle_frame hm env req.items ctx sv
          rw [handle_eq_handleQueued hx] at hframe
          refine .of_eq ?_
          rw [hframe]
    intro path data hd
    exact hhandle path data (hslow ▸ hd)

/-- What the loop of EXEC writes out still has the contents it started from. -/
theorem same_queueSnapshots {lo hi : Int} (queue : List RespValue)
    (hq : ∀ q ∈ queue, RequestIs Command.harmless q) (ctx : KvContext) (sv : Server F)
    (hquiet : Quiet lo hi sv.store) :
    ∀ t ∈ queueSnapshots env queue ctx sv, SameItems env.now sv.store t := by
  induction queue generalizing ctx sv with
  | nil =>
    intro t ht
    cases ht
  | cons req rest ih =>
    intro t ht
    have hr := hq req List.mem_cons_self
    have hone : Leaves env.now ctx sv (dispatchExecOne handleQueued env req ctx sv) :=
      (idle_harmless lo hi).dispatchExecOne hr hquiet
    unfold queueSnapshots at ht
    simp only [(idle_harmless (F := F) 0 0).recordQueued_eq hr] at ht
    rcases List.mem_append.mp ht with ht | ht
    · split at ht
      · rw [List.mem_singleton.mp ht]
        exact .refl _ _
      · cases ht
    · exact hone.items.trans (ih (fun q hm => hq q (List.mem_cons_of_mem _ hm)) _ _
        (hone.items.quiet hquiet) t ht)

theorem same_requestSnapshots {lo hi : Int} (hq : QueueOk ctx)
    (hquiet : Quiet lo hi sv.store) :
    ∀ t ∈ requestSnapshots env req ctx sv, SameItems env.now sv.store t := by
  intro t ht
  unfold requestSnapshots at ht
  split at ht
  · dsimp only at ht
    split at ht
    · have hreads : Reads (Commands.watchConflict ctx.watched : StoreM F _) := reads_watchConflict _
      have hsame := (hreads env sv.store trivial trivial).item
      exact hsame.trans (same_queueSnapshots _ hq _ _ (hsame.quiet hquiet) t ht)
    · cases ht
  · split at ht
    · rw [List.mem_singleton.mp ht]
      exact .refl _ _
    · cases ht
  · cases ht

end

/-! ## Top theorems -/

section

variable {lo hi sel : Int} {fresh : Server F} {log : List RespValue} {sys : System F}

theorem harmless_or_mutating {env : Env} {ctx : KvContext} {sv : Server F}
    (h : Reproducible lo hi sel env req ctx sv) (c : Command) (hf : fate ctx sv req = .runs c) :
    c.harmless = true ∨ c.mutating = true := by
  unfold Reproducible at h
  rw [hf] at h
  exact h.imp id fun hw => hw.mutating

theorem files_record {conn : Conn} {req rsp : RespValue} {sv : Server F} :
    (conn.record req rsp sv).files = sv.files := by
  have hprop : ∀ sv : Server F, (sv.propagateCommand req).files = sv.files := by
    intro sv
    obtain ⟨repl, sessions, h⟩ := propagateCommand_frame req sv
    rw [h]
  have happ : (sv.append req).files = sv.files := by
    unfold Server.append
    split <;> rfl
  unfold Conn.record
  split
  · dsimp only
    split <;> split <;> simp only [hprop, happ]
  · rfl

theorem files_serve (h : Mirror lo hi fresh sel log sys) {i : Nat} {env : Env}
    (hok : Reproducible lo hi sel env req (sys.conns i).ctx sys.server) :
    FilesFrom env (requestSnapshots env req (sys.conns i).ctx sys.server) sys.server
      (sys.serve i env req).server := by
  have hd : FilesFrom env (requestSnapshots env req (sys.conns i).ctx sys.server) sys.server
      (dispatch env req (sys.conns i).ctx sys.server).2.2 :=
    files_dispatch (h.queues i) (harmless_or_mutating hok)
  obtain ⟨sessions, hreply⟩ := Mirror.reply_frame i (dispatch env req (sys.conns i).ctx sys.server).1
    (dispatch env req (sys.conns i).ctx sys.server).2.2
  intro path data hfile
  refine hd path data ?_
  have heq : (sys.serve i env req).server.files =
      (dispatch env req (sys.conns i).ctx sys.server).2.2.files := by
    unfold System.serve System.setConn
    dsimp only
    rw [files_record, hreply]
  rw [← heq]
  exact hfile

theorem same_snapshots (h : Mirror lo hi fresh sel log sys) {e : Event}
    {x : Env × KvStore F} (hx : x ∈ sys.snapshots e) (hw : Within lo hi x.1) :
    SameItems x.1.now sys.server.store x.2 := by
  unfold System.snapshots at hx
  split at hx
  · split at hx
    · obtain ⟨t, ht, rfl⟩ := List.mem_map.mp hx
      exact same_requestSnapshots (h.queues _) (h.quiet hw) t ht
    · cases hx
  · rw [List.mem_singleton.mp hx]
    exact .refl _ _
  · split at hx
    · rw [List.mem_singleton.mp hx]
      exact .refl _ _
    · cases hx
  · cases hx

/-- One turn: every file was there, or the turn has written it. -/
theorem files_step (h : Mirror lo hi fresh sel log sys) (e : Event) (he : Faithful lo hi sel sys e)
    {path data : Bytes} (hfile : (sys.step e).server.files[path]? = some data) :
    sys.server.files[path]? = some data ∨
      ∃ x ∈ sys.snapshots e, data = dumpBinaryV2 x.1 x.2 := by
  have hsave : ∀ env : Env, FilesFrom env [sys.server.store] sys.server (sys.server.saveRdb env) :=
    fun _ => .saveRdb
  cases e with
  | request i env req =>
    rw [System.step] at hfile
    rw [System.snapshots]
    by_cases hr : sys.Ready i
    · rw [if_pos hr] at hfile ⊢
      rcases files_serve h (he hr).2.2 path data hfile with hold | ⟨t, ht, hnew⟩
      · exact .inl hold
      · exact .inr ⟨(env, t), List.mem_map.mpr ⟨t, ht, rfl⟩, hnew⟩
    · rw [if_neg hr] at hfile
      exact .inl hfile
  | accept i addr =>
    left
    rw [System.step] at hfile
    split at hfile <;> exact hfile
  | flush i =>
    left
    rw [System.step] at hfile
    split at hfile
    · unfold System.flush System.leave System.setConn at hfile
      dsimp only at hfile
      repeat' split at hfile
      all_goals exact hfile
    · exact hfile
  | hangup i =>
    left
    rw [System.step] at hfile
    split at hfile <;> exact hfile
  | expireTimer env => exact .inl hfile
  | saveTimer env =>
    rcases hsave env path data hfile with hold | ⟨t, ht, hnew⟩
    · exact .inl hold
    · rw [List.mem_singleton.mp ht] at hnew
      exact .inr ⟨(env, sys.server.store), List.mem_singleton_self _, hnew⟩
  | bgsaveJob env =>
    rw [System.step] at hfile
    rw [System.snapshots]
    by_cases hb : sys.server.bgsaveRunning = true
    · rw [if_pos hb] at hfile ⊢
      rcases hsave env path data hfile with hold | ⟨t, ht, hnew⟩
      · exact .inl hold
      · rw [List.mem_singleton.mp ht] at hnew
        exact .inr ⟨(env, sys.server.store), List.mem_singleton_self _, hnew⟩
    · rw [if_neg hb] at hfile
      exact .inl hfile
  | bgrewriteJob env =>
    have hidle : sys.server.bgrewriteRunning = false := he
    rw [System.step, hidle, if_neg Bool.false_ne_true] at hfile
    exact .inl hfile

end

end Kv
