import ZeroFrameworks.Kv.Persistence.AofMirror
import ZeroFrameworks.Kv.Server.Classification

/-!
# Replaying the log of a run

Two kinds of runs on a server that starts empty with its log switched on.  Where all requests come
from one connection, the database that the log has selected is the connection's own, and what has
to be asked of the requests is that nothing mutating is queued under MULTI (`single_replay`): the
QUEUED reply is not an error, so the request is logged once when it is queued and once more when EXEC
runs it.  Where several connections write, each has its own database and the log has one, so a
connection must have selected the database that was selected last (`shared_replay`).
-/

namespace Kv

variable {F : Type} [Platform F]

/-! ## Starting points -/

/-- A server that holds nothing and logs what it does. -/
structure Starts (sv : Server F) : Prop where
  items : ∀ db key, sv.store.item db key = none
  waiters : sv.waiters = []
  data : sv.aof.data = []
  enabled : sv.aof.enabled = true

/-- A server a log can be replayed on. -/
structure Fresh (sv : Server F) : Prop where
  items : ∀ db key, sv.store.item db key = none
  waiters : sv.waiters = []
  pass : sv.requirePass = []
  role : sv.repl.role = .master
  noEvict : sv.store.conf.NoEvict

/-- Turns of one connection after it was accepted, with the timers and saves of the server. -/
def Event.only (i : Nat) : Event → Prop
  | .request j _ _ | .flush j | .hangup j => j = i
  | .expireTimer _ | .saveTimer _ | .bgsaveJob _ => True
  | .accept _ _ | .bgrewriteJob _ => False

/-- All turns are faithful, the database of the log being the connection's own. -/
def FaithfulAlone (lo hi : Int) (i : Nat) : System F → List Event → Prop
  | _, [] => True
  | sys, e :: events =>
    Faithful lo hi (sys.conns i).ctx.db sys e ∧ FaithfulAlone lo hi i (sys.step e) events

/-! ## Lemmas -/

section

variable {lo hi sel : Int} {fresh : Server F} {log : List RespValue} {sys : System F} {i : Nat}

theorem quiet_of_items {s : KvStore F} (h : ∀ db key, s.item db key = none) : Quiet lo hi s := by
  intro db key o ho
  rw [h] at ho
  cases ho

/-- Nothing logged yet, nothing stored yet. -/
theorem mirror_start {sv : Server F} (hspan : lo ≤ hi) (hs : Starts sv) (hf : Fresh fresh) :
    Mirror lo hi fresh 0 [] { server := sv } where
  span := hspan
  data := hs.data
  wire req hr := by cases hr
  enabled := hs.enabled
  waiters := hs.waiters
  queues _ q hq := by cases hq
  active _ h := absurd rfl h
  replayed envs _ := by
    refine ⟨rfl, hf.pass, hf.role, hf.waiters, hf.noEvict, ?_, quiet_of_items hs.items,
      quiet_of_items hf.items⟩
    funext db key
    show (sv.store.live lo db key).map Item.norm = (fresh.store.live lo db key).map Item.norm
    unfold KvStore.live
    rw [hs.items, hf.items]

/-- The database of the connection is the one the log has selected. -/
def OwnDb (i : Nat) (sel : Int) (sys : System F) : Prop :=
  (sys.conns i).phase ≠ .closed → (sys.conns i).ctx.db = sel

theorem db_dispatch {env : Env} {req : RespValue} {ctx : KvContext} {sv : Server F}
    (hq : QueueOk ctx) (hwait : sv.waiters = []) (hn : sv.store.conf.NoEvict)
    (hquiet : Quiet lo hi sv.store) (hok : Reproducible lo hi ctx.db env req ctx sv) :
    (dispatch env req ctx sv).2.1.db = nextSel ctx.db req ctx sv := by
  by_cases hwrite : IsWrite env req ctx sv
  · obtain ⟨c, hf, hw⟩ := writeOk_of_isWrite hok hwrite
    have hwrote : Wrote (nextSel ctx.db req ctx sv) ctx sv _ :=
      dispatch_wrote hf hw.mutating hw.db hwait hwrite.1
    rw [hwrote.conn]
  · obtain ⟨hu, hsel⟩ := dispatch_unlogged hok hq hwait hn hquiet hwrite
    rw [hu.db, hsel]

theorem ownDb_setConn {c : Conn} (h : c.phase ≠ .closed → c.ctx.db = sel) :
    OwnDb i sel (sys.setConn i c) := by
  unfold OwnDb System.setConn
  simp only [Function.update_self]
  exact h

theorem ownDb_leave : OwnDb i sel (sys.leave i) := ownDb_setConn fun h => absurd rfl h

/-- One turn of the connection, or of a timer. -/
theorem ownDb_step (hm : Mirror lo hi fresh sel log sys) (ho : OwnDb i sel sys) {e : Event}
    (honly : e.only i) (he : Faithful lo hi (sys.conns i).ctx.db sys e) :
    OwnDb i (selAfter sel sys e) (sys.step e) := by
  cases e with
  | accept j addr => exact honly.elim
  | bgrewriteJob env => exact honly.elim
  | expireTimer env => exact ho
  | saveTimer env => exact ho
  | bgsaveJob env =>
    simp only [selAfter, System.step]
    split
    · exact ho
    · exact ho
  | hangup j =>
    obtain rfl : j = i := honly
    simp only [selAfter, System.step]
    split
    · exact ho
    · exact ownDb_leave
  | flush j =>
    obtain rfl : j = i := honly
    simp only [selAfter, System.step]
    split
    next hs =>
      have hdb := ho (by rw [hs]; exact fun h => by cases h)
      unfold System.flush
      dsimp only
      split
      · exact ownDb_leave
      · split
        · exact ownDb_setConn fun _ => hdb
        · split
          · exact ownDb_leave
          · exact ownDb_setConn fun _ => hdb
    · exact ho
  | request j env req =>
    obtain rfl : j = i := honly
    rw [selAfter, System.step]
    by_cases hr : sys.Ready j
    · rw [if_pos hr, if_pos hr]
      obtain ⟨hw, hn, hok⟩ := he hr
      have hdb : (sys.conns j).ctx.db = sel := by
        refine ho fun hc => ?_
        rcases hr.2.2 with hp | hp <;> rw [hp] at hc <;> cases hc
      refine ownDb_setConn fun _ => ?_
      rw [← hdb]
      exact db_dispatch (hm.queues j) hm.waiters hn (hm.quiet hw) hok
    · rw [if_neg hr, if_neg hr]
      exact ho

/-- A connection that is alone meets the condition on databases by itself. -/
theorem mirror_alone (events : List Event) (hm : Mirror lo hi fresh sel log sys)
    (ho : OwnDb i sel sys) (hone : ∀ e ∈ events, e.only i) (hsafe : FaithfulAlone lo hi i sys events) :
    ∃ sel', Mirror lo hi fresh sel' (log ++ sys.writes events) (sys.run events) := by
  induction events generalizing sel log sys with
  | nil =>
    rw [System.writes, List.append_nil]
    exact ⟨sel, hm⟩
  | cons e events ih =>
    obtain ⟨he, hrest⟩ := hsafe
    have hfirst := hone e List.mem_cons_self
    have hfaith : Faithful lo hi sel sys e := by
      cases e with
      | request j env req =>
        obtain rfl : j = i := hfirst
        intro hr
        have hdb : (sys.conns j).ctx.db = sel := by
          refine ho fun hc => ?_
          rcases hr.2.2 with hp | hp <;> rw [hp] at hc <;> cases hc
        rw [← hdb]
        exact he hr
      | _ => exact he
    rw [System.writes, ← List.append_assoc]
    exact ih (mirror_step hm e hfaith) (ownDb_step hm ho hfirst he)
      (fun e' h => hone e' (List.mem_cons_of_mem _ h)) hrest

end

/-! ## Top theorems -/

/-- Several connections: where each writes to the database that was selected last, by whichever
connection, the replay of their common log gives every database its live contents. -/
theorem shared_replay {lo hi : Int} (hspan : lo ≤ hi) {sv fresh : Server F} (hs : Starts sv)
    (hf : Fresh fresh) (events : List Event)
    (hsafe : FaithfulRun lo hi 0 ({ server := sv } : System F) events)
    (envs : Nat → Env) (he : ∀ n, Within lo hi (envs n)) :
    let sys := ({ server := sv } : System F).run events
    ∀ now, lo ≤ now → now ≤ hi → (replay envs sys.server.aof.data fresh).1 = .ok () ∧
      ∀ db, (replay envs sys.server.aof.data fresh).2.2.store.view now db =
        sys.server.store.view now db := by
  intro sys now h1 h2
  obtain ⟨sel, hend⟩ := mirror_run events (mirror_start hspan hs hf) hsafe
  obtain ⟨hok, hview⟩ := hend.replay_view envs he now h1 h2
  exact ⟨hok, fun db => congrFun hview db⟩

/-! ## Concrete runs -/

/-- Commands that can be run again whatever their arguments. -/
def Command.plain : Command → Bool
  | .store .incr | .store .append | .server .select => true
  | _ => false

/-- A test for `Faithful` that knows the plain commands only. -/
def checkEvent (lo hi sel : Int) (sys : System F) : Event → Bool
  | .request i env req =>
    decide (lo ≤ env.now) && decide (env.now ≤ hi) && decide sys.server.store.conf.NoEvict &&
      match fate (sys.conns i).ctx sys.server req with
      | .refused _ => true
      | .queued =>
        match rawName req with
        | .ok name => (lookup name).all Command.harmless
        | .error _ => true
      | .runs c => c.harmless || (c.plain && wire req &&
          (c == .server .select || (sys.conns i).ctx.db == sel))
  | .accept _ _ | .flush _ | .hangup _ => true
  | _ => false

theorem request_of_check {lo hi sel : Int} {sys : System F} {i : Nat} {env : Env} {req : RespValue}
    (h : checkEvent lo hi sel sys (.request i env req) = true) :
    Within lo hi env ∧ sys.server.store.conf.NoEvict ∧ Reproducible lo hi sel env req (sys.conns i).ctx sys.server := by
  simp only [checkEvent, Bool.and_eq_true, decide_eq_true_eq] at h
  obtain ⟨⟨⟨h1, h2⟩, hn⟩, hfate⟩ := h
  refine ⟨⟨h1, h2⟩, hn, ?_⟩
  unfold Reproducible
  cases hf : fate (sys.conns i).ctx sys.server req with
  | refused rsp => trivial
  | queued =>
    rw [hf] at hfate
    intro name c hname hl
    simp only [hname, hl, Option.all_some] at hfate
    exact hfate
  | runs c =>
    rw [hf] at hfate
    simp only [Bool.or_eq_true, Bool.and_eq_true, beq_iff_eq] at hfate
    rcases hfate with hc | ⟨⟨hp, hwire⟩, hdb⟩
    · exact .inl hc
    · unfold Command.plain at hp
      split at hp
      · exact .inr ⟨rfl, hwire, trivial, trivial, hdb⟩
      · exact .inr ⟨rfl, hwire, trivial, trivial, hdb⟩
      · exact .inr ⟨rfl, hwire, trivial, trivial, hdb⟩
      · cases hp

theorem faithful_of_check {lo hi sel : Int} {sys : System F} {e : Event}
    (h : checkEvent lo hi sel sys e = true) : Faithful lo hi sel sys e := by
  cases e with
  | request i env req => exact fun _ => request_of_check h
  | accept i addr => trivial
  | flush i => trivial
  | hangup i => trivial
  | expireTimer env => cases h
  | saveTimer env => cases h
  | bgsaveJob env => cases h
  | bgrewriteJob env => cases h

/-- The test along a run; `pick` says which database the log is taken to be in. -/
def checkRun (lo hi : Int) (pick : Int → System F → Int) : Int → System F → List Event → Bool
  | _, _, [] => true
  | sel, sys, e :: events => checkEvent lo hi (pick sel sys) sys e &&
      checkRun lo hi pick (selAfter sel sys e) (sys.step e) events

theorem faithfulRun_of_check {lo hi sel : Int} {sys : System F} {events : List Event}
    (h : checkRun lo hi (fun sel _ => sel) sel sys events = true) : FaithfulRun lo hi sel sys events := by
  induction events generalizing sel sys with
  | nil => trivial
  | cons e events ih =>
    rw [checkRun, Bool.and_eq_true] at h
    exact ⟨faithful_of_check h.1, ih h.2⟩

theorem faithfulAlone_of_check {lo hi sel : Int} {i : Nat} {sys : System F} {events : List Event}
    (h : checkRun lo hi (fun _ sys => (sys.conns i).ctx.db) sel sys events = true) :
    FaithfulAlone lo hi i sys events := by
  induction events generalizing sel sys with
  | nil => trivial
  | cons e events ih =>
    rw [checkRun, Bool.and_eq_true] at h
    exact ⟨faithful_of_check h.1, ih h.2⟩

/-- An empty server with its log switched on. -/
def logging : Server Int := { store := .empty, repl := { replId := [] }, aof := { enabled := true } }

theorem starts_logging : Starts logging := ⟨fun _ _ => rfl, rfl, rfl, rfl⟩

theorem fresh_logging : Fresh logging := ⟨fun _ _ => rfl, rfl, rfl, rfl, .inl (Int.le_refl 0)⟩

/-- A request of connection `i` at time 1. -/
def at1 (i : Nat) (args : List String) : Event := .request i { now := 1 } (command args)

/-- Both connections write to database 1 once it is selected. -/
theorem shared_replay_two :
    (replay (fun _ => { now := 1 }) (({ server := logging } : System Int).run
        [.accept 0 [], .accept 1 [], at1 0 ["SELECT", "1"], at1 1 ["SELECT", "1"], at1 1 ["INCR", "k"],
          at1 0 ["INCR", "k"]]).server.aof.data logging).2.2.store.view 1 1 =
      (({ server := logging } : System Int).run
        [.accept 0 [], .accept 1 [], at1 0 ["SELECT", "1"], at1 1 ["SELECT", "1"], at1 1 ["INCR", "k"],
          at1 0 ["INCR", "k"]]).server.store.view 1 1 :=
  (shared_replay (show (1 : Int) ≤ 1 from Int.le_refl 1) starts_logging fresh_logging
    [.accept 0 [], .accept 1 [], at1 0 ["SELECT", "1"], at1 1 ["SELECT", "1"], at1 1 ["INCR", "k"],
      at1 0 ["INCR", "k"]]
    (faithfulRun_of_check (by decide : checkRun 1 1 _ 0 _ _ = true)) (fun _ => { now := 1 })
    (fun _ => ⟨Int.le_refl 1, Int.le_refl 1⟩) 1 (Int.le_refl 1) (Int.le_refl 1)).2 1

/-- One connection selects database 1, the other writes `k` to its database 0: the log puts `k` into
database 1. -/
theorem written_elsewhere :
    let sys := ({ server := logging } : System Int).run
      [.accept 0 [], .accept 1 [], at1 0 ["SELECT", "1"], at1 1 ["SET", "k", "v"]]
    (replay (fun _ => { now := 1 }) sys.server.aof.data logging).2.2.store.view 1 0 ≠
      sys.server.store.view 1 0 := by
  intro sys h
  have hk := congrArg Option.isSome (congrFun h (lit "k"))
  revert hk
  decide

end Kv
