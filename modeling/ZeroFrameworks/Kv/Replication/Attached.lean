import ZeroFrameworks.Kv.Server.Effects
import ZeroFrameworks.Kv.Server.Keeps
import ZeroFrameworks.Kv.Server.System

/-!
# Replicas stay attached

PSYNC registers the session of a replica.  `handleClient` leaves its loop, and takes the session off the list,
when at the end of a batch there is nothing to send.  After CONTINUE there is nothing, since the payload has
been sent with the reply, and after FULLRESYNC there is nothing if another client's write has been pushed
to the session in the meantime.

    Along Attached (start sv) events ↔ Along Pending (start sv) events   (attached_iff)
-/

namespace Kv

variable {F : Type} [Platform F]

/-! ## Specification -/

namespace System

/-- A server that nobody has connected to. -/
def start (sv : Server F) : System F := { server := { sv with repl := { sv.repl with replicas := [] } } }

/-- A PSYNC of connection `i` that a master answers with FULLRESYNC or CONTINUE. -/
def Resyncs (i : Nat) (sys : System F) : Event → Prop
  | .request j _ req =>
    i = j ∧ sys.Ready j ∧ sys.server.repl.role = .master ∧
      fate (sys.conns j).ctx sys.server req = .runs (.server .psync) ∧ req.items.length = 3 ∧
      nullAt req.items 1 = false ∧ nullAt req.items 2 = false ∧ (intAt req.items 2).isSome = true
  | _ => False

/-- What is propagated gets to session `i`. -/
def Pushes (i : Nat) (sv : Server F) : Prop :=
  ∀ command, sv.repl.role = .master → encode command <:+ ((sv.propagateCommand command).sessions i).sent

/-- Replicas stay on the list while their peers do, PSYNC puts them on it, and they get what is propagated. -/
def Attached (sys : System F) (e : Event) : Prop :=
  ∀ i, i ∈ sys.server.repl.replicas ∨ sys.Resyncs i e → e ≠ .hangup i →
    i ∈ (sys.step e).server.repl.replicas ∧ Pushes i (sys.step e).server

/-- The batch of a replica does not end with nothing to send. -/
def Pending (sys : System F) : Event → Prop
  | .flush i => i ∈ sys.server.repl.replicas → (sys.conns i).phase = .serving →
      0 < i32 (sys.server.sessions i).writeBuf.length
  | _ => True

/-- A property of every event, with the state before it. -/
def Along (P : System F → Event → Prop) (sys : System F) : List Event → Prop
  | [] => True
  | e :: events => P sys e ∧ Along P (sys.step e) events

end System

/-! ## Lemmas -/

/-- What a command does to the list of replicas: it may add the session of its own connection. -/
structure Enlists (st st' : KvContext × Server F) : Prop where
  session : st'.1.session = st.1.session
  replica : st.1.replicaConnection = true → st'.1.replicaConnection = true
  kept : ∀ i ∈ st.2.repl.replicas, i ∈ st'.2.repl.replicas
  joins : ∀ i ∈ st'.2.repl.replicas,
    i ∈ st.2.repl.replicas ∨ st.1.session = some i ∧ st'.1.replicaConnection = true

namespace Enlists

variable {st st' st'' : KvContext × Server F}

theorem of_eq (hs : st'.1.session = st.1.session) (hr : st'.1.replicaConnection = st.1.replicaConnection)
    (hl : st'.2.repl.replicas = st.2.repl.replicas) : Enlists st st' := by
  refine ⟨hs, fun h => hr.trans h, ?_, ?_⟩
  · intro i hi
    rw [hl]
    exact hi
  · intro i hi
    rw [hl] at hi
    exact .inl hi

theorem refl (st : KvContext × Server F) : Enlists st st := of_eq rfl rfl rfl

theorem trans (h : Enlists st st') (h' : Enlists st' st'') : Enlists st st'' := by
  refine ⟨h'.session.trans h.session, fun hr => h'.replica (h.replica hr), fun i hi => h'.kept i (h.kept i hi), ?_⟩
  intro i hi
  rcases h'.joins i hi with hi | ⟨hs, hr⟩
  · rcases h.joins i hi with hi | ⟨hs, hr⟩
    · exact .inl hi
    · exact .inr ⟨hs, h'.replica hr⟩
  · exact .inr ⟨h.session.symm.trans hs, hr⟩

end Enlists

section

variable {env : Env} {args : List RespValue} {ctx : KvContext} {sv : Server F}

theorem replicas_setSlaveOf (host : Bytes) (port : Int) (r : Replication) :
    (Commands.setSlaveOf host port r).replicas = r.replicas := by
  unfold Commands.setSlaveOf
  split <;> rfl

theorem replicas_propagateCommand (command : RespValue) :
    (sv.propagateCommand command).repl.replicas = sv.repl.replicas := by
  unfold Server.propagateCommand
  split
  · obtain ⟨sessions, h⟩ :=
      Server.fanoutToReplicas_frame (encode command) { sv with repl := sv.repl.propagateCommand command }
    rw [h]
    exact Replication.propagateCommand_replicas sv.repl command
  · rfl

theorem repl_append (command : RespValue) : (sv.append command).repl = sv.repl := by
  unfold Server.append
  split <;> rfl

theorem replicas_recordQueued (req rsp : RespValue) : (recordQueued req rsp sv).repl.replicas = sv.repl.replicas := by
  unfold recordQueued
  split
  · rw [replicas_propagateCommand, repl_append]
  · rfl

theorem replicas_record (c : Conn) (req rsp : RespValue) :
    (c.record req rsp sv).repl.replicas = sv.repl.replicas := by
  unfold Conn.record
  repeat' split
  all_goals simp only [replicas_propagateCommand, repl_append]

theorem enlists_answerPsync {session : Nat} (hs : ctx.session = some session) (result : Commands.PsyncResult) :
    Enlists (ctx, sv) (Commands.answerPsync session ctx sv result).2 := by
  have hjoins : ∀ sv' : Server F, sv'.repl = sv.repl →
      Enlists (ctx, sv) ({ ctx with replicaConnection := true }, Commands.registerReplica session sv') := by
    intro sv' hrepl
    have hlist : (Commands.registerReplica session sv').repl.replicas = sv.repl.replicas ++ [session] := by
      rw [← hrepl]
      rfl
    refine ⟨rfl, fun _ => rfl, ?_, ?_⟩
    · intro i hi
      show i ∈ (Commands.registerReplica session sv').repl.replicas
      rw [hlist]
      exact List.mem_append_left _ hi
    · intro i hi
      change i ∈ (Commands.registerReplica session sv').repl.replicas at hi
      rw [hlist] at hi
      rcases List.mem_append.mp hi with hi | hi
      · exact .inl hi
      · rw [List.mem_singleton] at hi
        exact .inr ⟨hi ▸ hs, rfl⟩
  cases result with
  | refused line => exact .refl _
  | full line payload => exact hjoins _ rfl
  | continued line payload =>
    dsimp only [Commands.answerPsync]
    split
    · exact .of_eq rfl rfl rfl
    · exact hjoins _ rfl

theorem enlists_psync : Enlists (ctx, sv) (Commands.psync env args ctx sv).2 := by
  unfold Commands.psync
  repeat' split
  · exact .refl _
  · exact .refl _
  · exact .refl _
  · next hs => exact enlists_answerPsync hs _

theorem enlists_watchLoop (vs : List RespValue) : Enlists (ctx, sv) (Commands.watchLoop env ctx sv vs).2 := by
  induction vs generalizing ctx sv with
  | nil => exact .refl _
  | cons v vs ih =>
    dsimp only [Commands.watchLoop]
    split
    · exact .refl _
    · refine Enlists.trans ?_ ih
      exact .of_eq rfl rfl rfl

theorem enlists_config : Enlists (ctx, sv) (Commands.config env args ctx sv).2 := by
  have hite : ∀ {c : Prop} [Decidable c] {p q : RespValue × Server F}, p.2.repl = sv.repl → q.2.repl = sv.repl →
      (if c then p else q).2.repl = sv.repl := by
    intro c _ p q hp hq
    split
    · exact hp
    · exact hq
  have hset : (Commands.configSet args sv).2.repl = sv.repl := by
    unfold Commands.configSet Commands.configSetKey
    repeat' apply hite
    all_goals rfl
  unfold Commands.config
  repeat' split
  · exact .refl _
  · exact .refl _
  · exact .of_eq rfl rfl (by rw [hset])
  · exact .refl _

theorem enlists_publish : Enlists (ctx, sv) (Commands.publish env args ctx sv).2 := by
  unfold Commands.publish
  split
  · exact .refl _
  · split
    · exact .refl _
    · obtain ⟨sessions, h⟩ :=
        deliver_spec sv (sv.pubsub.deliveries env.order (strAt args 1) (strAt args 2))
      simp only [h]
      exact .of_eq rfl rfl rfl

theorem enlists_handleServer (c : ServerCommand) : Enlists (ctx, sv) (handleServer c env args ctx sv).2 := by
  cases c
  case psync => exact enlists_psync
  case config => exact enlists_config
  case publish => exact enlists_publish
  case watch =>
    dsimp only [handleServer, Commands.watch]
    split
    · exact .refl _
    · exact enlists_watchLoop _
  case slaveof =>
    dsimp only [handleServer, Commands.slaveof]
    repeat' split
    all_goals exact .of_eq rfl rfl (by simp only [replicas_setSlaveOf])
  all_goals
    simp only [handleServer, Commands.ping, Commands.info, Commands.select, Commands.echo, Commands.unwatch,
      Commands.multi, Commands.discard, Commands.role, Commands.save, Commands.lastsave, Commands.bgrewriteaof,
      Commands.subscribe, Commands.psubscribe, Commands.subscribeCommand, Commands.unsubscribe,
      Commands.punsubscribe, Commands.leavePubsub, Commands.auth, Commands.bgsave, Commands.client, Commands.quit,
      Commands.script, Commands.time, Commands.shutdown, Commands.slowlog]
    repeat' split
    all_goals exact .of_eq rfl rfl rfl

theorem keeps_enlists : Keeps (Enlists (F := F)) where
  refl := .refl
  trans := .trans
  store _ _ _ _ := .of_eq rfl rfl rfl
  server c _ _ _ _ := enlists_handleServer c
  slowlog _ _ _ := .of_eq rfl rfl rfl
  queue _ _ _ := .of_eq rfl rfl rfl
  endMulti _ _ := .of_eq rfl rfl rfl
  record req rsp _ _ := .of_eq rfl rfl (replicas_recordQueued req rsp)

theorem collectFrom_ne_nil {want : Int} {chunks : List BacklogChunk} {out : Bytes}
    (h : Replication.collectFrom want chunks = some out) : out ≠ [] := by
  induction chunks with
  | nil => cases h
  | cons c cs ih =>
    unfold Replication.collectFrom at h
    split at h
    · exact ih h
    · split at h
      · cases h
      · next hend hstart =>
        cases h
        intro hnil
        have hdrop := (List.append_eq_nil_iff.mp hnil).1
        rw [List.drop_eq_nil_iff] at hdrop
        omega

theorem tryCollectPartial_ne_nil {r : Replication} {replid : Bytes} {offset : Int} {out : Bytes}
    (h : r.tryCollectPartial replid offset = some out) : out ≠ [] := by
  unfold Replication.tryCollectPartial at h
  repeat' split at h
  · cases h
  · cases h
  · cases h
  · cases h
  · exact collectFrom_ne_nil h

theorem psync_registers {session : Nat} (hs : ctx.session = some session) (hrole : sv.repl.role = .master)
    (hlen : args.length = 3) (h1 : nullAt args 1 = false) (h2 : nullAt args 2 = false)
    (hoff : (intAt args 2).isSome = true) : session ∈ (Commands.psync env args ctx sv).2.2.repl.replicas := by
  obtain ⟨offset, hoff⟩ := Option.isSome_iff_exists.mp hoff
  have hmem : ∀ sv' : Server F, session ∈ (Commands.registerReplica session sv').repl.replicas :=
    fun sv' => List.mem_append_right _ List.mem_cons_self
  unfold Commands.psync
  rw [if_neg (by simp [hlen, h1, h2]), hoff]
  simp only [hs, Commands.handlePsync, hrole]
  cases hp : sv.repl.tryCollectPartial (strAt args 1) offset with
  | none => exact hmem _
  | some payload =>
    dsimp only [Commands.answerPsync]
    rw [if_neg (by simp [tryCollectPartial_ne_nil hp])]
    exact hmem _

/-! ### Pushes -/

theorem foldl_push_other {encoded : Bytes} {i : Nat} {l : List Nat} (h : i ∉ l) :
    (l.foldl (fun sv j => sv.onSession j fun s => (s.pushReplicationPayload encoded).2) sv).sessions i =
      sv.sessions i := by
  induction l generalizing sv with
  | nil => rfl
  | cons j l ih =>
    rw [List.mem_cons, not_or] at h
    rw [List.foldl_cons, ih h.2]
    exact Function.update_of_ne h.1 _ _

theorem foldl_push_suffix {encoded : Bytes} (he : encoded ≠ []) {i : Nat} {l : List Nat} (h : i ∈ l) :
    encoded <:+
      ((l.foldl (fun sv j => sv.onSession j fun s => (s.pushReplicationPayload encoded).2) sv).sessions i).sent := by
  induction l generalizing sv with
  | nil => cases h
  | cons j l ih =>
    rw [List.foldl_cons]
    by_cases hl : i ∈ l
    · exact ih hl
    · obtain rfl : i = j := (List.mem_cons.mp h).resolve_right hl
      rw [foldl_push_other hl]
      have hself : (sv.onSession i fun s => (s.pushReplicationPayload encoded).2).sessions i =
          ((sv.sessions i).pushReplicationPayload encoded).2 := Function.update_self ..
      have hne : ((sv.sessions i).writeBuf ++ encoded).isEmpty = false := by simp [he]
      rw [hself, Session.pushReplicationPayload, Session.flushResponses, hne]
      exact ⟨(sv.sessions i).sent ++ (sv.sessions i).writeBuf, by simp⟩

theorem pushes_of_mem {i : Nat} (h : i ∈ sv.repl.replicas) : System.Pushes i sv := by
  intro command hrole
  unfold Server.propagateCommand
  rw [if_pos hrole]
  refine foldl_push_suffix (encode_ne_nil command) ?_
  show i ∈ (sv.repl.propagateCommand command).replicas
  rw [Replication.propagateCommand_replicas]
  exact h

end

/-! ### One turn -/

namespace System

/-- A connection knows its session, and replicas are in a batch or followed. -/
structure Joined (sys : System F) : Prop where
  session : ∀ i, (sys.conns i).phase ≠ .closed → (sys.conns i).ctx.session = some i
  replica : ∀ i ∈ sys.server.repl.replicas, ((sys.conns i).phase = .serving ∨ (sys.conns i).phase = .following) ∧
    (sys.conns i).ctx.replicaConnection = true

variable {sys : System F} {i : Nat}

theorem joined_start (sv : Server F) : (start sv).Joined := by
  refine ⟨?_, ?_⟩
  · intro i h
    exact absurd rfl h
  · intro i hi
    cases hi

theorem Joined.of_same {sys' : System F} (h : sys.Joined) (hconns : sys'.conns = sys.conns)
    (hlist : sys'.server.repl.replicas = sys.server.repl.replicas) : sys'.Joined := by
  refine ⟨?_, ?_⟩
  · rw [hconns]
    exact h.session
  · rw [hconns, hlist]
    exact h.replica

theorem Joined.setConn {sys' : System F} {c : Conn} (h : sys.Joined) (hconns : sys'.conns = Function.update sys.conns i c)
    (hsession : c.phase ≠ .closed → c.ctx.session = some i)
    (hothers : ∀ j ∈ sys'.server.repl.replicas, j ≠ i → j ∈ sys.server.repl.replicas)
    (hself : i ∈ sys'.server.repl.replicas →
      (c.phase = .serving ∨ c.phase = .following) ∧ c.ctx.replicaConnection = true) : sys'.Joined := by
  refine ⟨?_, ?_⟩
  · intro j
    rw [hconns]
    by_cases hj : j = i
    · subst hj
      rw [Function.update_self]
      exact hsession
    · rw [Function.update_of_ne hj]
      exact h.session j
  · intro j hmem
    rw [hconns]
    by_cases hj : j = i
    · subst hj
      rw [Function.update_self]
      exact hself hmem
    · rw [Function.update_of_ne hj]
      exact h.replica j (hothers j hmem hj)

theorem mem_leave {sys : System F} {i j : Nat} :
    j ∈ (sys.leave i).server.repl.replicas ↔ j ∈ sys.server.repl.replicas ∧ j ≠ i := by
  show j ∈ sys.server.repl.replicas.filter (· ≠ i) ↔ _
  rw [List.mem_filter, decide_eq_true_iff]

theorem Joined.leave (h : sys.Joined) (i : Nat) : (sys.leave i).Joined := by
  refine h.setConn (c := {}) rfl (fun hc => absurd rfl hc) ?_ ?_
  · intro j hj _
    exact (mem_leave.mp hj).1
  · intro hi
    exact absurd rfl (mem_leave.mp hi).2

theorem serve_enlists (i : Nat) (env : Env) (req : RespValue) (sys : System F) :
    ∃ r : RespValue × KvContext × Server F, r = dispatch env req (sys.conns i).ctx sys.server ∧
      Enlists ((sys.conns i).ctx, sys.server) r.2 ∧
      (sys.serve i env req).conns = Function.update sys.conns i { sys.conns i with ctx := r.2.1, phase := .serving } ∧
      (sys.serve i env req).server.repl.replicas = r.2.2.repl.replicas := by
  refine ⟨_, rfl, keeps_enlists.dispatch req, rfl, ?_⟩
  show (Conn.record _ req _ _).repl.replicas = _
  rw [replicas_record]
  split <;> rfl

theorem Ready.phase_ne_closed (h : sys.Ready i) : (sys.conns i).phase ≠ .closed := by
  intro hc
  obtain ⟨-, -, hp | hp⟩ := h
  · cases hc.symm.trans hp
  · cases hc.symm.trans hp

theorem Joined.serve (h : sys.Joined) (hr : sys.Ready i) (env : Env) (req : RespValue) :
    (sys.serve i env req).Joined := by
  obtain ⟨r, -, hf, hconns, hlist⟩ := serve_enlists i env req sys
  have hphase : (sys.conns i).phase ≠ .closed := hr.phase_ne_closed
  have hsession : (sys.conns i).ctx.session = some i := h.session i hphase
  refine h.setConn hconns (fun _ => hf.session.trans hsession) ?_ ?_
  · intro j hj hne
    rw [hlist] at hj
    rcases hf.joins j hj with hj | ⟨hj, -⟩
    · exact hj
    · cases hsession.symm.trans hj
      exact absurd rfl hne
  · intro hi
    rw [hlist] at hi
    refine ⟨.inl rfl, ?_⟩
    rcases hf.joins i hi with hi | ⟨-, hc⟩
    · exact hf.replica (h.replica i hi).2
    · exact hc

theorem Joined.flush (h : sys.Joined) (hp : (sys.conns i).phase = .serving) : (sys.flush i).Joined := by
  have hsession : (sys.conns i).ctx.session = some i := h.session i (by rw [hp]; exact Phase.noConfusion)
  have hsent : ∀ s : Session, Joined { sys with server := sys.server.onSession i fun _ => s } :=
    fun s => h.of_same rfl rfl
  unfold System.flush
  simp only
  split
  · exact (hsent _).leave i
  · split
    · next hc =>
      exact (hsent _).setConn rfl (fun _ => hsession) (fun j hj _ => hj) fun _ => ⟨.inr rfl, hc⟩
    · next hc =>
      split
      · exact (hsent _).leave i
      · exact (hsent _).setConn rfl (fun _ => hsession) (fun j hj _ => hj) fun hi => absurd (h.replica i hi).2 hc

theorem Joined.step (h : sys.Joined) (e : Event) : (sys.step e).Joined := by
  cases e with
  | accept j addr =>
    simp only [System.step]
    split
    · next hc =>
      refine h.setConn rfl (fun _ => rfl) (fun k hk _ => hk) ?_
      intro hj
      rcases (h.replica j hj).1 with hp | hp
      · rw [hc] at hp
        cases hp
      · rw [hc] at hp
        cases hp
    · exact h
  | request j env req =>
    simp only [System.step]
    split
    · next hr => exact h.serve hr env req
    · exact h
  | flush j =>
    simp only [System.step]
    split
    · next hp => exact h.flush hp
    · exact h
  | hangup j =>
    simp only [System.step]
    split
    · exact h
    · exact h.leave j
  | expireTimer env => exact h.of_same rfl rfl
  | saveTimer env => exact h.of_same rfl rfl
  | bgsaveJob env =>
    simp only [System.step]
    split
    · exact h.of_same rfl rfl
    · exact h
  | bgrewriteJob env =>
    simp only [System.step]
    split
    · exact h.of_same rfl rfl
    · exact h

theorem flushResponses_fst (s : Session) : s.flushResponses.1 ≤ 0 ↔ ¬ 0 < i32 s.writeBuf.length := by
  have hfst : s.flushResponses.1 = i32 s.writeBuf.length := by
    by_cases he : s.writeBuf = []
    · have hzero : i32 0 = 0 := by decide
      simp [Session.flushResponses, he, hzero]
    · simp [Session.flushResponses, he]
  rw [hfst, Int.not_lt]

/-- The end of a batch takes off the list a replica that there is nothing to send to, and no other. -/
theorem mem_flush (h : sys.Joined) {j : Nat} (hi : i ∈ sys.server.repl.replicas) :
    i ∈ (sys.flush j).server.repl.replicas ↔ (i = j → 0 < i32 (sys.server.sessions j).writeBuf.length) := by
  have hne : ∀ sys' : System F, sys'.server.repl = sys.server.repl →
      (i ∈ (sys'.leave j).server.repl.replicas ↔ i ≠ j) := by
    intro sys' hrepl
    rw [mem_leave, hrepl]
    exact ⟨fun h => h.2, fun h => ⟨hi, h⟩⟩
  unfold System.flush
  simp only
  split
  · next hle =>
    rw [flushResponses_fst] at hle
    refine (hne _ rfl).trans ?_
    exact ⟨fun h h' => absurd h' h, fun h h' => hle (h h')⟩
  · next hgt =>
    rw [flushResponses_fst, Decidable.not_not] at hgt
    split
    · exact iff_of_true hi fun _ => hgt
    · next hc =>
      have hij : i ≠ j := by
        intro hij
        exact hc (hij ▸ (h.replica i hi).2)
      split
      · exact (hne _ rfl).trans (iff_of_true hij fun _ => hgt)
      · exact iff_of_true hi fun _ => hgt

theorem mem_serve_of_resyncs (h : sys.Joined) {env : Env} {req : RespValue} (hs : sys.Resyncs i (.request i env req)) :
    i ∈ (sys.serve i env req).server.repl.replicas := by
  obtain ⟨-, hr, hrole, hfate, hlen, h1, h2, hoff⟩ := hs
  have hphase : (sys.conns i).phase ≠ .closed := hr.phase_ne_closed
  obtain ⟨r, rfl, -, -, hlist⟩ := serve_enlists i env req sys
  rw [hlist]
  unfold dispatch dispatchWith
  rw [hfate]
  exact psync_registers (h.session i hphase) hrole hlen h1 h2 hoff

theorem attached_step (h : sys.Joined) (e : Event) : sys.Attached e ↔ sys.Pending e := by
  have hkeep : (∀ i ∈ sys.server.repl.replicas, e ≠ .hangup i → i ∈ (sys.step e).server.repl.replicas) →
      (∀ i, ¬ sys.Resyncs i e) → sys.Attached e := by
    intro hmem hno i hi hne
    have hi' := hmem i (hi.resolve_right (hno i)) hne
    exact ⟨hi', pushes_of_mem hi'⟩
  have hsame : (sys.step e).server.repl.replicas = sys.server.repl.replicas → (∀ i, ¬ sys.Resyncs i e) →
      sys.Attached e := by
    intro hl hno
    exact hkeep (fun i hi _ => hl ▸ hi) hno
  cases e with
  | accept j addr =>
    refine iff_of_true (hsame ?_ fun i hs => hs) trivial
    simp only [System.step]
    split <;> rfl
  | request j env req =>
    refine iff_of_true ?_ trivial
    intro i hi _
    have hi' : i ∈ (sys.step (.request j env req)).server.repl.replicas := by
      simp only [System.step]
      split
      · rcases hi with hi | hs
        · obtain ⟨r, -, hf, -, hlist⟩ := serve_enlists j env req sys
          rw [hlist]
          exact hf.kept i hi
        · obtain rfl : i = j := hs.1
          exact mem_serve_of_resyncs h hs
      · next hr => exact hi.resolve_right fun hs => hr hs.2.1
    exact ⟨hi', pushes_of_mem hi'⟩
  | flush j =>
    by_cases hp : (sys.conns j).phase = .serving
    · have hstep : sys.step (.flush j) = sys.flush j := if_pos hp
      constructor
      · intro ha hj _
        have hj' := (ha j (.inl hj) Event.noConfusion).1
        rw [hstep] at hj'
        exact (mem_flush h hj).mp hj' rfl
      · intro hpend
        refine hkeep ?_ fun i hs => hs
        intro i hi _
        rw [hstep]
        refine (mem_flush h hi).mpr ?_
        intro hij
        exact hpend (hij ▸ hi) hp
    · have hstep : sys.step (.flush j) = sys := if_neg hp
      exact iff_of_true (hsame (by rw [hstep]) fun i hs => hs) fun _ hp' => absurd hp' hp
  | hangup j =>
    refine iff_of_true (hkeep ?_ fun i hs => hs) trivial
    intro i hi hne
    simp only [System.step]
    split
    · exact hi
    · refine mem_leave.mpr ⟨hi, ?_⟩
      rintro rfl
      exact hne rfl
  | expireTimer env => exact iff_of_true (hsame rfl fun i hs => hs) trivial
  | saveTimer env => exact iff_of_true (hsame rfl fun i hs => hs) trivial
  | bgsaveJob env =>
    refine iff_of_true (hsame ?_ fun i hs => hs) trivial
    simp only [System.step]
    split <;> rfl
  | bgrewriteJob env =>
    refine iff_of_true (hsame ?_ fun i hs => hs) trivial
    simp only [System.step]
    split <;> rfl

/-! ## Top theorem -/

theorem along_attached_iff (events : List Event) (h : sys.Joined) :
    sys.Along Attached events ↔ sys.Along Pending events := by
  induction events generalizing sys with
  | nil => exact Iff.rfl
  | cons e events ih => exact and_congr (attached_step h e) (ih (h.step e))

theorem attached_iff (sv : Server F) (events : List Event) :
    (start sv).Along Attached events ↔ (start sv).Along Pending events :=
  along_attached_iff events (joined_start sv)

/-- A write, and then a replica that continues from offset 0. -/
def continued : List Event :=
  [.accept 1 [], .request 1 { now := 1 } (bulkArray [lit "SET", lit "k", lit "v"]), .flush 1, .accept 0 [],
    .request 0 { now := 1 } (bulkArray [lit "PSYNC", lit "?", lit "0"]), .flush 0]

/-- The replica has been sent all it asked for, and is taken off the list. -/
theorem detached_after_continue :
    ¬ (start ({ store := .empty, repl := { replId := lit "r" } } : Server Int)).Along Attached continued := by
  intro h
  have hlast := h.2.2.2.2.2.1 0 (.inl (by decide)) Event.noConfusion
  exact absurd hlast.1 (by decide)

end System

end Kv
