import ZeroFrameworks.Kv.Replication.Resync
import ZeroFrameworks.Kv.Server.Snapshots
import ZeroFrameworks.Kv.Store.Overwrites

/-!
# Recovery

`start` loads the snapshot file and replays the log over it.  The log is the whole run, and the snapshot
holds what the first part of it led to, so that part is carried out twice.  This does no harm where it
consists of commands that overwrite: their replay changes the contents as `overwrite` does, which is the
same done twice as done once.

    a snapshot is written only while the log holds nothing but overwriting commands →
      start on the files of the run gives its live contents   (recovered_run)
-/

namespace Kv

open Lib

variable {F : Type} [Platform F]

/-! ## Algorithm -/

namespace Server

/-- `KvStore::loadRdb`; where there is no file there is nothing to load. -/
def loadRdb (env : Env) (sv : Server F) : Except Bytes Unit × Server F :=
  match sv.files[sv.store.conf.rdbPath]? with
  | none => (.ok (), sv)
  | some data => sv.onStore (KvStore.loadFromString data) env

/-- `KvServer::start` before it listens; what fails is only reported. -/
def start (env : Env) (envs : Nat → Env) (sv : Server F) : Server F :=
  let sv := (sv.loadRdb env).2
  if sv.aof.enabled then (replay envs sv.aof.data sv).2.2 else sv

/-- The process `sv` where `crashed` has left its files. -/
def onDiskOf (sv crashed : Server F) : Server F :=
  { sv with files := crashed.files, aof := { sv.aof with data := crashed.aof.data } }

end Server

/-! ## Specification -/

/-- What the command leaves in a key does not depend on what was there. -/
def Command.overwrites (args : List RespValue) : Command → Bool
  | .store .set => args.length == 3
  | .store .del | .store .flushdb | .store .flushall | .server .select => true
  | _ => false

def requestOverwrites (req : RespValue) : Bool :=
  match rawName req with
  | .error _ => false
  | .ok name => (lookup name).any (·.overwrites req.items)

/-- A faithful turn that writes no snapshot unless all of the log overwrites. -/
def Recoverable (lo hi sel : Int) (log : List RespValue) (sys : System F) (e : Event) : Prop :=
  Faithful lo hi sel sys e ∧ ∀ x ∈ sys.snapshots e,
    Within lo hi x.1 ∧ x.2.Fits x.1 ∧ ∀ req ∈ log, requestOverwrites req = true

/-- All turns of a run are recoverable; `log` is what has been logged before. -/
def RecoverableRun (lo hi : Int) : Int → List RespValue → System F → List Event → Prop
  | _, _, _, [] => True
  | sel, log, sys, e :: events => Recoverable lo hi sel log sys e ∧
      RecoverableRun lo hi (selAfter sel sys e) (log ++ sys.eventWrites e) (sys.step e) events

/-- The log is an image of the store also over any of the files. -/
structure Restorable (lo hi : Int) (fresh : Server F) (sel : Int) (log : List RespValue)
    (sys : System F) : Prop where
  mirror : Mirror lo hi fresh sel log sys
  files : ∀ (path data : Bytes) (env : Env), sys.server.files[path]? = some data → Within lo hi env →
    Mirror lo hi (fresh.onStore (KvStore.loadFromString data) env).2 sel log sys

/-! ## Lemmas -/

section

variable {lo hi sel : Int} {fresh : Server F} {log : List RespValue} {sys : System F}

/-- Where a replay of writes can go on. -/
structure Open (lo hi sel : Int) (st : KvContext × Server F) : Prop where
  conn : st.1 = { db := sel }
  pass : st.2.requirePass = []
  role : st.2.repl.role = .master
  waiters : st.2.waiters = []
  noEvict : st.2.store.conf.NoEvict
  quiet : Quiet lo hi st.2.store

theorem open_fresh (h : Fresh fresh) : Open lo hi 0 ({}, fresh) :=
  ⟨rfl, h.pass, h.role, h.waiters, h.noEvict, quiet_of_items h.items⟩

theorem overwrites_handleStore {c : StoreCommand} {args : List RespValue} (db : Int)
    (h : (Command.store c).overwrites args = true) :
    Overwrites lo hi (handleStore c db args : StoreM F _) := by
  cases c
  case set => exact Commands.overwrites_set db (by simpa [Command.overwrites] using h)
  case del => exact Commands.overwrites_del db
  case flushdb => exact Commands.overwrites_flushdb db
  case flushall => exact Commands.overwrites_flushall db
  all_goals cases h

theorem mutating_of_overwrites {c : Command} {args : List RespValue} (h : c.overwrites args = true) :
    c.mutating = true := by
  unfold Command.overwrites at h
  split at h
  case h_6 => cases h
  all_goals rfl

theorem command_of_overwrites {req : RespValue} (h : requestOverwrites req = true) :
    ∃ name c, rawName req = .ok name ∧ lookup name = some c ∧ c.overwrites req.items = true := by
  unfold requestOverwrites at h
  cases hname : rawName req with
  | error e =>
    rw [hname] at h
    cases h
  | ok name =>
    rw [hname] at h
    cases hl : lookup name with
    | none => simp [hl] at h
    | some c =>
      simp only [hl, Option.any_some] at h
      exact ⟨name, c, rfl, hl, h⟩

/-- One command: the database it selects and what it overwrites are the same wherever it runs. -/
theorem replayOne_overwrites {req : RespValue} (h : requestOverwrites req = true) (sel : Int) :
    ∃ sel' g, Strings g ∧ ∀ env (st : KvContext × Server F), Within lo hi env → Open lo hi sel st →
      Open lo hi sel' (replayOne env req st) ∧
        (replayOne env req st).2.store.view lo = overwrite g (st.2.store.view lo) := by
  obtain ⟨name, c, hname, hl, hc⟩ := command_of_overwrites h
  have hmut : isMutatingCommand (upperCmd req) = true := by
    rw [upperCmd_of_rawName hname, isMutating_of_lookup hl, mutating_of_overwrites hc]
  have hfate : ∀ sv : Server F, Open lo hi sel ({ db := sel }, sv) → fate { db := sel } sv req = .runs c := by
    intro sv ho
    have hgates : (∃ c, fate { db := sel } sv req = .runs c) ↔ _ := fate_of_mutating hmut rfl rfl rfl rfl
    obtain ⟨c', hf⟩ := hgates.mpr ⟨ho.pass, ho.role⟩
    obtain ⟨name', hname', -, -, hl'⟩ := fate_runs hf
    rw [hname] at hname'
    cases hname'
    rw [hl] at hl'
    cases hl'
    exact hf
  cases c with
  | store c =>
    obtain ⟨g, hg, hrun⟩ := @overwrites_handleStore F _ lo hi c req.items sel hc
    refine ⟨sel, g, hg, fun env st hw ho => ?_⟩
    obtain ⟨ctx, sv⟩ := st
    obtain rfl : ctx = { db := sel } := ho.conn
    have hr := hrun env sv.store hw ho.noEvict ho.quiet
    unfold replayOne dispatch dispatchWith
    rw [hfate sv ho]
    exact ⟨⟨rfl, ho.pass, ho.role, ho.waiters, hr.noEvict, hr.quiet⟩, hr.view⟩
  | server c =>
    cases c
    case select =>
      refine ⟨(selectTarget req.items).getD sel, fun _ _ => none, strings_none, fun env st hw ho => ?_⟩
      obtain ⟨ctx, sv⟩ := st
      obtain rfl : ctx = { db := sel } := ho.conn
      have hs := select_state env req.items { db := sel } sv
      unfold replayOne dispatch dispatchWith
      rw [hfate sv ho]
      show Open lo hi _ ({ (Commands.select env req.items { db := sel } sv).2.1 with quit := false },
        { (Commands.select env req.items { db := sel } sv).2.2 with slowlog := _ }) ∧
        (Commands.select env req.items { db := sel } sv).2.2.store.view lo = _
      rw [hs]
      exact ⟨⟨rfl, ho.pass, ho.role, ho.waiters, ho.noEvict, ho.quiet⟩, rfl⟩
    all_goals cases hc
  | push c => cases hc
  | eval => cases hc
  | evalsha => cases hc
  | exec => cases hc

theorem replay_overwrites (log : List RespValue) (h : ∀ req ∈ log, requestOverwrites req = true) (sel : Int) :
    ∃ sel' g, Strings g ∧ ∀ (envs : Nat → Env) n (st : KvContext × Server F), (∀ n, Within lo hi (envs n)) →
      Open lo hi sel st → Open lo hi sel' (replayCommands envs n log st) ∧
        (replayCommands envs n log st).2.store.view lo = overwrite g (st.2.store.view lo) := by
  induction log generalizing sel with
  | nil => exact ⟨sel, fun _ _ => none, strings_none, fun _ _ _ _ ho => ⟨ho, rfl⟩⟩
  | cons req log ih =>
    obtain ⟨sel1, g1, hg1, hone⟩ := @replayOne_overwrites F _ lo hi req (h req List.mem_cons_self) sel
    obtain ⟨sel2, g2, hg2, hrest⟩ := ih (fun r hr => h r (List.mem_cons_of_mem _ hr)) sel1
    refine ⟨sel2, fun d k => (g2 d k).or (g1 d k), hg1.over hg2, fun envs n st he ho => ?_⟩
    obtain ⟨ho1, hv1⟩ := hone (envs n) st (he n) ho
    obtain ⟨ho2, hv2⟩ := hrest envs (n + 1) _ he ho1
    refine ⟨ho2, ?_⟩
    rw [replayCommands, hv2, hv1, overwrite_overwrite]

namespace Mirror

theorem reload (h : Mirror lo hi fresh sel log sys) (hf : Fresh fresh)
    (ho : ∀ req ∈ log, requestOverwrites req = true) {sv : Server F} (hopen : Open lo hi 0 ({}, sv))
    (hview : sv.store.view lo = sys.server.store.view lo) : Mirror lo hi sv sel log sys := by
  obtain ⟨sel', g, -, hrun⟩ := replay_overwrites (F := F) log ho 0
  refine { h with replayed := fun envs he => ?_ }
  have hr := h.replayed envs he
  obtain ⟨ho1, hv1⟩ := hrun envs 0 _ he (open_fresh hf)
  obtain ⟨ho2, hv2⟩ := hrun envs 0 _ he hopen
  obtain rfl : sel' = sel := congrArg KvContext.db (ho1.conn.symm.trans hr.conn)
  refine ⟨ho2.conn, ho2.pass, ho2.role, ho2.waiters, ho2.noEvict, ?_, hr.alike.quietL, ho2.quiet⟩
  rw [hv2, hview, hr.alike.view, hv1, overwrite_idem]

theorem strings (h : Mirror lo hi fresh sel log sys) (hf : Fresh fresh)
    (ho : ∀ req ∈ log, requestOverwrites req = true) {db : Int} {key : Bytes} {o : Item F}
    (hl : sys.server.store.live lo db key = some o) : o.type = .string := by
  obtain ⟨sel', g, hg, hrun⟩ := replay_overwrites (F := F) log ho 0
  have he : ∀ n : Nat, Within lo hi ((fun _ => { now := lo }) n) := fun _ => ⟨Int.le_refl lo, h.span⟩
  obtain ⟨-, hv⟩ := hrun _ 0 _ he (open_fresh hf)
  have hview := congrFun (congrFun ((h.replayed _ he).alike.view.trans hv) db) key
  have hempty : fresh.store.view lo db key = none := by
    rw [KvStore.view_eq, hf.items]
    rfl
  have hlive : sys.server.store.view lo db key = some o.norm := by
    rw [KvStore.view, hl, Option.map_some]
  rw [hlive, overwrite_apply, hempty] at hview
  cases hk : g db key with
  | none =>
    rw [hk] at hview
    cases hview
  | some v =>
    rw [hk, Option.getD_some] at hview
    rw [← hview] at hk
    have ht := hg db key o.norm hk
    rwa [← Obj.norm_type]

end Mirror

omit [Platform F] in
theorem kept_of_string {o : Item F} (h : o.type = .string) : o.type.Valid ∧ o.saved.norm = o.norm := by
  obtain ⟨⟨t, _⟩, _⟩ := o
  cases h
  refine ⟨fun c hc => ?_, rfl⟩
  cases hc

theorem mirror_snapshot (h : Mirror lo hi fresh sel log sys) (hf : Fresh fresh) {e : Event}
    {x : Env × KvStore F} (hx : x ∈ sys.snapshots e) (hw : Within lo hi x.1) (hfits : x.2.Fits x.1)
    (ho : ∀ req ∈ log, requestOverwrites req = true) {env : Env} (henv : Within lo hi env) :
    Mirror lo hi (fresh.onStore (KvStore.loadFromString (dumpBinaryV2 x.1 x.2)) env).2 sel log sys := by
  have hsame := same_snapshots h hx hw
  have hquiet : Quiet lo hi x.2 := hsame.quiet (h.quiet hw)
  have hwhole : x.2.Whole x.1 := by
    refine ⟨hfits, fun db key o hl => kept_of_string ?_⟩
    have hlive := hsame.live db key
    rw [hl, Option.map_some] at hlive
    obtain ⟨p, hp, hpo⟩ := Option.map_eq_some_iff.mp hlive.symm
    rw [(h.quiet hw).live hw.1 hw.2] at hp
    have ht := congrArg (fun o : Item F => o.type) hpo
    rw [← Obj.norm_type, ← (h.strings hf ho hp), ← Obj.norm_type p.toObj]
    exact ht.symm
  obtain ⟨-, hconf, halike⟩ := loaded_dump hw hwhole hquiet henv hf.noEvict
  unfold Server.onStore
  generalize KvStore.loadFromString (dumpBinaryV2 x.1 x.2) env fresh.store = loaded at hconf halike ⊢
  refine h.reload hf ho ⟨rfl, hf.pass, hf.role, hf.waiters, hconf, halike.quietR⟩ ?_
  show loaded.2.view lo = _
  rw [← halike.view]
  funext db key
  rw [KvStore.view, KvStore.view, ← hquiet.live hw.1 hw.2, ← (h.quiet hw).live hw.1 hw.2]
  exact hsame.live db key

/-! ## Runs -/

theorem restorable_start {sv : Server F} (hspan : lo ≤ hi) (hs : Starts sv) (hfiles : sv.files = ∅)
    (hf : Fresh fresh) : Restorable lo hi fresh 0 [] { server := sv } where
  mirror := mirror_start hspan hs hf
  files path data env hd _ := by
    change sv.files[path]? = some data at hd
    rw [hfiles, Std.ExtTreeMap.getElem?_empty] at hd
    cases hd

theorem restorable_step (h : Restorable lo hi fresh sel log sys) (hf : Fresh fresh) (e : Event)
    (he : Recoverable lo hi sel log sys e) :
    Restorable lo hi fresh (selAfter sel sys e) (log ++ sys.eventWrites e) (sys.step e) where
  mirror := mirror_step h.mirror e he.1
  files path data env hd henv := by
    rcases files_step h.mirror e he.1 hd with hold | ⟨x, hx, rfl⟩
    · exact mirror_step (h.files path data env hold henv) e he.1
    · obtain ⟨hw, hfits, ho⟩ := he.2 x hx
      exact mirror_step (mirror_snapshot h.mirror hf hx hw hfits ho henv) e he.1

theorem restorable_run (events : List Event) (h : Restorable lo hi fresh sel log sys) (hf : Fresh fresh)
    (hrun : RecoverableRun lo hi sel log sys events) :
    ∃ sel' log', Restorable lo hi fresh sel' log' (sys.run events) := by
  induction events generalizing sel log sys with
  | nil => exact ⟨sel, log, h⟩
  | cons e events ih =>
    obtain ⟨he, hrest⟩ := hrun
    exact ih (restorable_step h hf e he) hrest

theorem Restorable.start_view (h : Restorable lo hi fresh sel log sys)
    (hfiles : fresh.files = sys.server.files) (hdata : fresh.aof.data = sys.server.aof.data)
    (hon : fresh.aof.enabled = true) {env : Env} (henv : Within lo hi env) (envs : Nat → Env)
    (he : ∀ n, Within lo hi (envs n)) {now : Int} (h1 : lo ≤ now) (h2 : now ≤ hi) :
    (fresh.start env envs).store.view now = sys.server.store.view now := by
  unfold Server.start Server.loadRdb
  dsimp only
  cases hd : fresh.files[fresh.store.conf.rdbPath]? with
  | none =>
    rw [if_pos hon, hdata]
    exact (h.mirror.replay_view envs he now h1 h2).2
  | some data =>
    have hfile : sys.server.files[fresh.store.conf.rdbPath]? = some data := by rw [← hfiles, hd]
    show (if fresh.aof.enabled = true then
      (replay envs fresh.aof.data (fresh.onStore (KvStore.loadFromString data) env).2).2.2 else _).store.view now = _
    rw [if_pos hon, hdata]
    exact ((h.files _ data env hfile henv).replay_view envs he now h1 h2).2

end

/-! ## Top theorem -/

/-- Where every snapshot is written while the log does nothing but overwrite, a fresh process finds the
live contents on the disk of the crashed one. -/
theorem recovered_run {lo hi : Int} (hspan : lo ≤ hi) {sv fresh : Server F} (hs : Starts sv)
    (hfiles : sv.files = ∅) (hf : Fresh fresh) (hon : fresh.aof.enabled = true) (events : List Event)
    (hrun : RecoverableRun lo hi 0 [] ({ server := sv } : System F) events) (env : Env)
    (henv : Within lo hi env) (envs : Nat → Env) (he : ∀ n, Within lo hi (envs n)) :
    let sys := ({ server := sv } : System F).run events
    ∀ now, lo ≤ now → now ≤ hi →
      ((fresh.onDiskOf sys.server).start env envs).store.view now = sys.server.store.view now := by
  intro sys now h1 h2
  have hfresh : Fresh (fresh.onDiskOf sys.server) := ⟨hf.items, hf.waiters, hf.pass, hf.role, hf.noEvict⟩
  obtain ⟨sel, log, hend⟩ := restorable_run events (restorable_start hspan hs hfiles hfresh) hfresh hrun
  exact hend.start_view rfl rfl hon henv envs he h1 h2

/-! ## Concrete runs -/

theorem recoverable_of_check {lo hi sel : Int} {log : List RespValue} {sys : System F} {e : Event}
    (h : checkEvent lo hi sel sys e = true) (hno : (sys.snapshots e).isEmpty = true) :
    Recoverable lo hi sel log sys e := by
  refine ⟨faithful_of_check h, fun x hx => ?_⟩
  rw [List.isEmpty_iff.mp hno] at hx
  cases hx

theorem fits_of_empty {env : Env} {s : KvStore F} (h : (s.snapshot env).isEmpty = true) : s.Fits env := by
  have hnil := List.isEmpty_iff.mp h
  have hnone : ∀ db key o, s.live env.now db key ≠ some o := by
    intro db key o hl
    obtain ⟨d, hd, -⟩ := KvStore.snapped_snapshot.mpr hl
    rw [hnil] at hd
    cases hd
  refine ⟨by rw [hnil]; exact Nat.two_pow_pos 32, ?_, ?_, ?_, ?_, ?_⟩
  · intro d hd
    rw [hnil] at hd
    cases hd
  · intro d hd
    rw [hnil] at hd
    cases hd
  · exact fun db key o hl => absurd hl (hnone db key o)
  · exact fun db key o hl => absurd hl (hnone db key o)
  · exact fun db key o hl => absurd hl (hnone db key o)

/-- A database is selected, the save timer goes off, and a key of that database is written. -/
def savedEarly : List Event :=
  [.accept 0 [], at1 0 ["SELECT", "1"], .saveTimer { now := 1 }, at1 0 ["INCR", "k"]]

theorem recovered_run_incr :
    ((logging.onDiskOf (({ server := logging } : System Int).run savedEarly).server).start { now := 1 }
        fun _ => { now := 1 }).store.view 1 =
      (({ server := logging } : System Int).run savedEarly).server.store.view 1 := by
  have hnow : Within 1 1 { now := 1 } := ⟨Int.le_refl 1, Int.le_refl 1⟩
  refine recovered_run (Int.le_refl 1) starts_logging rfl fresh_logging rfl savedEarly ?_ { now := 1 } hnow
    (fun _ => { now := 1 }) (fun _ => hnow) 1 (Int.le_refl 1) (Int.le_refl 1)
  refine ⟨recoverable_of_check (by decide) (by decide),
    recoverable_of_check (by decide) (by decide), ⟨trivial, fun x hx => ?_⟩,
    recoverable_of_check (by decide) (by decide), trivial⟩
  rw [List.mem_singleton.mp hx]
  exact ⟨hnow, fits_of_empty (by decide), by decide⟩

/-- `INCR k`, then SAVE: the store has 1, and so has the file; the log makes it 2. -/
theorem counted_twice :
    let sys := ({ server := logging } : System Int).run
      [.accept 0 [], at1 0 ["INCR", "k"], at1 0 ["SAVE"]]
    ((logging.onDiskOf sys.server).start { now := 1 } fun _ => { now := 1 }).store.view 1 ≠
      sys.server.store.view 1 := by
  intro sys h
  have hk := congrArg (Option.map fun o => o.value) (congrFun (congrFun h 0) (lit "k"))
  revert hk
  decide

end Kv
