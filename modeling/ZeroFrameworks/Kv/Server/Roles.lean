import ZeroFrameworks.Kv.Persistence.AofMirror
import ZeroFrameworks.Kv.Replication.Apply
import ZeroFrameworks.Kv.Server.Keeps

/-!
# Role changes on open connections

`handleClient` looks at the role of the node when the connection is accepted and keeps what it saw in
`repl_active`.  Here the body of its loop is two turns, the command and what is recorded of it, and the
role may change before, between and after them.

A replica refuses writes, so a write that succeeds was executed on a master and should be counted in the
replication offset.  It is if and only if the connection was accepted on a master and the node still is
one when the write is recorded:

    Along Honoured (start sv) events ↔ Along InRole (start sv) events
-/

namespace Kv

variable {F : Type} [Platform F]

/-! ## Runs -/

/-- A request with its reply and the role of the node that executed it. -/
structure Served where
  req : RespValue
  rsp : RespValue
  role : Role

/-- A write that did not fail. -/
def Served.write (p : Served) : Bool := !p.rsp.isError && isMutatingCommand (upperCmd p.req)

/-- The server, and what its connections have served and not recorded. -/
structure Failover (F : Type) [Platform F] where
  sys : System F
  served : Nat → Option Served

inductive RoleEvent where
  /-- A turn of the system that is no request. -/
  | other (e : Event)
  | execute (i : Nat) (env : Env) (req : RespValue)
  | record (i : Nat)
  | setSlaveOf (host : Bytes) (port : Int)
  | promoteToMaster

/-- The connection whose turn it is. -/
def Event.conn (e : Event) : Option Nat :=
  match e with
  | .accept i _ | .request i _ _ | .flush i | .hangup i => some i
  | _ => none

namespace Failover

def start (sv : Server F) : Failover F where
  sys := { server := sv }
  served _ := none

/-- The first half of the loop's body: dispatch and the reply. -/
def execute (i : Nat) (env : Env) (req : RespValue) (f : Failover F) : Failover F :=
  let c := f.sys.conns i
  let r := dispatch env req c.ctx f.sys.server
  let sv := if r.1.isNone then r.2.2 else r.2.2.onSession i (·.appendResponse r.1)
  { sys := System.setConn i { c with ctx := r.2.1, phase := .serving } { f.sys with server := sv }
    served := Function.update f.served i (some ⟨req, r.1, f.sys.server.repl.role⟩) }

/-- The second half. -/
def record (i : Nat) (p : Served) (f : Failover F) : Failover F where
  sys := { f.sys with server := (f.sys.conns i).record p.req p.rsp f.sys.server }
  served := Function.update f.served i none

def changeRole (host : Bytes) (port : Int) (f : Failover F) : Failover F :=
  { f with sys := { f.sys with
      server := { f.sys.server with repl := Commands.setSlaveOf host port f.sys.server.repl } } }

def step (f : Failover F) : RoleEvent → Failover F
  | .other (.request _ _ _) => f
  | .other e => if e.conn.all fun i => (f.served i).isNone then { f with sys := f.sys.step e } else f
  | .execute i env req => if f.sys.Ready i ∧ (f.served i).isNone then f.execute i env req else f
  | .record i =>
    match f.served i with
    | some p => f.record i p
    | none => f
  | .setSlaveOf host port => f.changeRole host port
  | .promoteToMaster => f.changeRole [] 0

/-- A property of every event, with the state before it. -/
def Along (P : Failover F → RoleEvent → Prop) (f : Failover F) : List RoleEvent → Prop
  | [] => True
  | e :: events => P f e ∧ Along P (f.step e) events

/-- The write is passed to `propagateCommand` and its bytes are counted. -/
def Counted (f : Failover F) (i : Nat) (p : Served) : Prop :=
  (f.sys.conns i).replActive = true ∧
    (f.step (.record i)).sys.server.repl.offset = f.sys.server.repl.offset + (encode p.req).length

/-- A write is counted if and only if a master executed it. -/
def Honoured (f : Failover F) (e : RoleEvent) : Prop :=
  match e with
  | .record i => ∀ p ∈ f.served i, p.write = true → (f.Counted i p ↔ p.role = .master)
  | _ => True

/-- A write is recorded on a connection that was accepted on a master, and on a master. -/
def InRole (f : Failover F) (e : RoleEvent) : Prop :=
  match e with
  | .record i => ∀ p ∈ f.served i, p.write = true →
      (f.sys.conns i).replActive = true ∧ f.sys.server.repl.role = .master
  | _ => True

end Failover

/-! ## Lemmas -/

theorem Failover.serve_eq (f : Failover F) (i : Nat) (env : Env) (req : RespValue) (hf : f.served i = none) :
    ((f.step (.execute i env req)).step (.record i)).sys = f.sys.step (.request i env req) := by
  by_cases hr : f.sys.Ready i
  · have hexecute : f.step (.execute i env req) = f.execute i env req :=
      if_pos ⟨hr, Option.isNone_iff_eq_none.mpr hf⟩
    have hserved : (f.execute i env req).served i =
        some ⟨req, (dispatch env req (f.sys.conns i).ctx f.sys.server).1, f.sys.server.repl.role⟩ :=
      Function.update_self ..
    have hconn : (f.execute i env req).sys.conns i = { f.sys.conns i with
        ctx := (dispatch env req (f.sys.conns i).ctx f.sys.server).2.1, phase := .serving } := Function.update_self ..
    rw [hexecute]
    simp only [Failover.step, hserved, System.step, if_pos hr]
    unfold Failover.record
    rw [hconn]
    rfl
  · have hexecute : f.step (.execute i env req) = f := if_neg fun h => hr h.1
    rw [hexecute]
    simp only [Failover.step, hf, System.step, if_neg hr]

section replApply

variable {env : Env} {args : List RespValue} {ctx : KvContext} {sv : Server F}

theorem replApply_watchLoop (vs : List RespValue) :
    (Commands.watchLoop env ctx sv vs).2.1.replApply = ctx.replApply := by
  induction vs generalizing ctx sv with
  | nil => rfl
  | cons v vs ih =>
    unfold Commands.watchLoop
    split
    · rfl
    · exact ih

theorem replApply_handleServer (c : ServerCommand) :
    (handleServer c env args ctx sv).2.1.replApply = ctx.replApply := by
  cases c
  case watch =>
    simp only [handleServer, Commands.watch]
    split
    · rfl
    · exact replApply_watchLoop _
  all_goals
    simp only [handleServer, Commands.ping, Commands.config, Commands.info, Commands.select, Commands.echo,
      Commands.unwatch, Commands.multi, Commands.discard, Commands.role, Commands.slaveof, Commands.psync,
      Commands.answerPsync, Commands.save, Commands.lastsave, Commands.bgrewriteaof, Commands.subscribe,
      Commands.psubscribe, Commands.subscribeCommand, Commands.unsubscribe, Commands.punsubscribe,
      Commands.leavePubsub, Commands.publish, Commands.auth, Commands.bgsave, Commands.client, Commands.quit,
      Commands.script, Commands.time, Commands.shutdown, Commands.slowlog]
    repeat' split
    all_goals rfl

theorem keeps_replApply : Keeps (F := F) fun a b => b.1.replApply = a.1.replApply where
  refl _ := rfl
  trans hab hbc := hbc.trans hab
  store _ _ _ _ := rfl
  server c _ _ _ _ := replApply_handleServer c
  slowlog _ _ _ := rfl
  queue _ _ _ := rfl
  endMulti _ _ := rfl
  record _ _ _ _ := rfl

theorem replApply_dispatch {req : RespValue} : (dispatch env req ctx sv).2.1.replApply = ctx.replApply :=
  keeps_replApply.dispatch req

theorem master_of_write {req : RespValue} (ha : ctx.replApply = false)
    (hm : isMutatingCommand (upperCmd req) = true) (hok : (dispatch env req ctx sv).1.isError = false) :
    sv.repl.role = .master := by
  by_contra hrole
  have hslave : sv.repl.role = .slave := by
    cases h : sv.repl.role with
    | master => exact absurd h hrole
    | slave => rfl
  obtain ⟨name, c, hname, hu, hl, -⟩ := mutating_request hm
  rw [hu] at hm
  obtain ⟨_, h3, h4⟩ := not_exempt_of_mutating hm
  obtain ⟨e, he⟩ : ∃ e, refusal ctx sv name = some e := by
    unfold refusal
    split
    · exact ⟨_, rfl⟩
    · split
      · exact ⟨_, rfl⟩
      · rw [if_pos (by simp [ha, hslave, hm, h3, h4])]
        exact ⟨_, rfl⟩
  have hfate : fate ctx sv req = .refused e := by
    unfold fate
    rw [hname]
    simp only [he]
  unfold dispatch dispatchWith at hok
  rw [hfate] at hok
  rw [show e.isError = true from isError_of_refused hfate] at hok
  cases hok

end replApply

namespace Failover

/-- Connections are clients', and what was served and succeeded as a write was served by a master. -/
structure Sound (f : Failover F) : Prop where
  clients : ∀ i, (f.sys.conns i).ctx.replApply = false
  masters : ∀ i, ∀ p ∈ f.served i, p.write = true → p.role = .master

variable {f : Failover F}

theorem sound_start (sv : Server F) : (start sv).Sound := ⟨fun _ => rfl, fun _ _ hp => nomatch hp⟩

theorem clients_step {sys : System F} (h : ∀ i, (sys.conns i).ctx.replApply = false) {e : Event}
    (he : ∀ i env req, e ≠ .request i env req) : ∀ i, ((sys.step e).conns i).ctx.replApply = false := by
  have hset : ∀ (sys' : System F) j c, sys'.conns = sys.conns → c.ctx.replApply = false →
      ∀ i, ((System.setConn j c sys').conns i).ctx.replApply = false := by
    intro sys' j c hsys hc i
    show (Function.update sys'.conns j c i).ctx.replApply = false
    by_cases hi : i = j
    · rw [hi, Function.update_self]
      exact hc
    · rw [Function.update_of_ne hi, hsys]
      exact h i
  cases e with
  | request i env req => exact absurd rfl (he i env req)
  | accept j addr =>
    simp only [System.step]
    split
    · exact hset { sys with server := _ } j _ rfl rfl
    · exact h
  | flush j =>
    simp only [System.step, System.flush]
    repeat' split
    · exact hset _ j {} rfl rfl
    · exact hset _ j _ rfl (h j)
    · exact hset _ j {} rfl rfl
    · exact hset _ j _ rfl (h j)
    · exact h
  | hangup j =>
    simp only [System.step]
    split
    · exact h
    · exact hset _ j {} rfl rfl
  | expireTimer env => exact h
  | saveTimer env => exact h
  | bgsaveJob env =>
    simp only [System.step]
    split <;> exact h
  | bgrewriteJob env =>
    simp only [System.step]
    split <;> exact h

theorem Sound.execute (h : f.Sound) (i : Nat) (env : Env) (req : RespValue) : (f.execute i env req).Sound := by
  constructor
  · intro j
    show (Function.update f.sys.conns i _ j).ctx.replApply = false
    by_cases hj : j = i
    · rw [hj, Function.update_self]
      exact replApply_dispatch.trans (h.clients i)
    · rw [Function.update_of_ne hj]
      exact h.clients j
  · intro j p hp hw
    have hp : Function.update f.served i _ j = some p := hp
    by_cases hj : j = i
    · rw [hj, Function.update_self] at hp
      cases hp
      unfold Served.write at hw
      rw [Bool.and_eq_true, Bool.not_eq_true'] at hw
      exact master_of_write (h.clients i) hw.2 hw.1
    · rw [Function.update_of_ne hj] at hp
      exact h.masters j p hp hw

theorem step_other {e : Event} (he : ∀ i env req, e ≠ .request i env req) :
    f.step (.other e) = if e.conn.all fun i => (f.served i).isNone then { f with sys := f.sys.step e } else f := by
  cases e with
  | request i env req => exact absurd rfl (he i env req)
  | _ => rfl

theorem Sound.step (h : f.Sound) (e : RoleEvent) : (f.step e).Sound := by
  cases e with
  | other e =>
    by_cases he : ∃ i env req, e = .request i env req
    · obtain ⟨i, env, req, rfl⟩ := he
      exact h
    · have hother : ∀ i env req, e ≠ .request i env req := fun i env req h => he ⟨i, env, req, h⟩
      rw [step_other hother]
      split
      · exact ⟨clients_step h.clients hother, h.masters⟩
      · exact h
  | execute i env req =>
    simp only [Failover.step]
    split
    · exact h.execute i env req
    · exact h
  | record i =>
    simp only [Failover.step]
    split
    · refine ⟨h.clients, ?_⟩
      intro j p hp
      by_cases hj : j = i
      · subst hj
        have hp : Function.update f.served j none j = some p := hp
        rw [Function.update_self] at hp
        cases hp
      · have hp : Function.update f.served i none j = some p := hp
        rw [Function.update_of_ne hj] at hp
        exact h.masters j p hp
    · exact h
  | setSlaveOf host port => exact ⟨h.clients, h.masters⟩
  | promoteToMaster => exact ⟨h.clients, h.masters⟩

theorem offset_record {p : Served} (hw : p.write = true) (c : Conn) (sv : Server F) :
    (c.record p.req p.rsp sv).repl.offset =
      if c.replActive = true ∧ sv.repl.role = .master then sv.repl.offset + (encode p.req).length
      else sv.repl.offset := by
  unfold Served.write at hw
  have happend : (if c.aofActive then sv.append p.req else sv).repl = sv.repl := by
    unfold Server.append
    repeat' split
    all_goals rfl
  unfold Conn.record
  rw [Bool.and_assoc, hw, Bool.and_true]
  cases hr : c.replActive with
  | false =>
    simp only [Bool.false_eq_true, false_and, if_false]
    split
    · rw [happend]
    · rfl
  | true =>
    rw [Bool.or_true, if_pos rfl]
    simp only [if_true, true_and]
    unfold Server.propagateCommand
    rw [happend]
    by_cases hm : sv.repl.role = .master
    · obtain ⟨sessions, hs⟩ := Server.fanoutToReplicas_frame (encode p.req)
        { (if c.aofActive then sv.append p.req else sv) with repl := sv.repl.propagateCommand p.req }
      rw [if_pos hm, if_pos hm, hs]
      show (sv.repl.propagateCommand p.req).offset = _
      unfold Replication.propagateCommand Replication.appendBacklog
      rw [if_pos hm, if_neg fun h => encode_ne_nil p.req (List.isEmpty_iff.mp h)]
    · rw [if_neg hm, if_neg hm, happend]

theorem counted_iff {i : Nat} {p : Served} (hp : f.served i = some p) (hw : p.write = true) :
    f.Counted i p ↔ (f.sys.conns i).replActive = true ∧ f.sys.server.repl.role = .master := by
  have hstep : f.step (.record i) = f.record i p := by simp only [Failover.step, hp]
  have hoffset := offset_record hw (f.sys.conns i) f.sys.server
  have hpos : 0 < (encode p.req).length := List.length_pos_iff.mpr (encode_ne_nil p.req)
  unfold Counted
  rw [hstep]
  show _ ∧ ((f.sys.conns i).record p.req p.rsp f.sys.server).repl.offset = _ ↔ _
  rw [hoffset]
  constructor
  · rintro ⟨hr, heq⟩
    refine ⟨hr, ?_⟩
    by_contra hm
    rw [if_neg fun h => hm h.2] at heq
    omega
  · intro h
    exact ⟨h.1, if_pos h⟩

theorem honoured_iff (h : f.Sound) (e : RoleEvent) : f.Honoured e ↔ f.InRole e := by
  cases e with
  | record i =>
    constructor
    · intro hh p hp hw
      exact (counted_iff hp hw).mp ((hh p hp hw).mpr (h.masters i p hp hw))
    · intro hr p hp hw
      exact iff_of_true ((counted_iff hp hw).mpr (hr p hp hw)) (h.masters i p hp hw)
  | other e => exact Iff.rfl
  | execute i env req => exact Iff.rfl
  | setSlaveOf host port => exact Iff.rfl
  | promoteToMaster => exact Iff.rfl

theorem along_honoured_iff (h : f.Sound) (events : List RoleEvent) : f.Along Honoured events ↔ f.Along InRole events := by
  induction events generalizing f with
  | nil => exact Iff.rfl
  | cons e events ih => exact and_congr (honoured_iff h e) (ih (h.step e))

end Failover

/-! ## Top theorem -/

/-- **In a run of requests and role changes every write is counted if and only if a master executed it,
exactly when every write is recorded on a connection that was accepted on a master, and on a master.** -/
theorem honoured_iff_inRole (sv : Server F) (events : List RoleEvent) :
    (Failover.start sv).Along Failover.Honoured events ↔ (Failover.start sv).Along Failover.InRole events :=
  Failover.along_honoured_iff (Failover.sound_start sv) events

/-- A connection accepted on a replica, the replica is promoted, and SET on the connection succeeds and is
not counted. -/
theorem promoted_not_counted :
    ¬(Failover.start ({ store := .empty, repl := { role := .slave, replId := [] } } : Server Int)).Along
      Failover.Honoured
      [.other (.accept 0 []), .promoteToMaster,
        .execute 0 { now := 1 } (bulkArray [lit "SET", lit "k", lit "v"]), .record 0] := by
  rintro ⟨_, _, _, hhonoured, _⟩
  have hcounted := (hhonoured _ rfl (by decide +kernel)).mpr rfl
  exact absurd hcounted.1 (by decide +kernel)

end Kv
