import ZeroFrameworks.Kv.Store.Hashes
import ZeroFrameworks.Kv.Store.Lists
import ZeroFrameworks.Kv.Store.Watch
import ZeroFrameworks.Lib.Interleave

/-!
# Compound commands under concurrency

HSETNX, GETSET, GETDEL and RPOPLPUSH each take a lock, look, let the lock go, and take it again to
write.  Here every command runs section by section, a section being what happens under one lock, and
the sections of several clients come in any order.

A section sees and replaces one key's entry (`OnKey`), so that sections on different keys may change
places.  A run is that of some sequential order of its commands if between the first section of a
command and a later one no section of another command falls on the later one's key, and nothing is
evicted:

    Roomy cmds s.conf → Uninterrupted Turn.cmd (Apart cmds) sched →
      Atomic cmds s sched ∧ OneSets cmds s sched ∧ OneTakes cmds s sched   (atomic_of_uninterrupted)

Without the condition it need not be: two HSETNX that both look before either writes both answer
`1` (`hsetnx_both_set`).
-/

namespace Kv

variable {F : Type} [Platform F] {α β : Type}

open Interleave

/-! ## Commands, section by section -/

inductive Cmd where
  | hsetnx (db : Int) (key field value : Bytes)
  | getset (db : Int) (key value : Bytes)
  | getdel (db : Int) (key : Bytes)
  | rpoplpush (db : Int) (src dst : Bytes)

/-- The reply of a command: of HSETNX a flag, of the others a value. -/
inductive Answer where
  | flag (r : Except Bytes Bool)
  | value (r : Except Bytes (Option Bytes))
  deriving DecidableEq

/-- Where a command is: before its first section, with what it has read after one or two sections,
or done. -/
inductive Stage where
  | start
  | mid (old : Option Bytes)
  | late (old : Option Bytes)
  | done (a : Answer)
  deriving DecidableEq

/-- The number of the section that comes next. -/
def Stage.nth : Stage → Nat
  | .start => 0
  | .mid _ => 1
  | .late _ => 2
  | .done _ => 3

namespace Cmd

/-- Second locked section of `setOpt`, after `evictIfNeededLocked`. -/
def setSection (db : Int) (key value : Bytes) : StoreM F Bool :=
  .withEnv fun env => .onEntry db key
    (KvStore.setBody value false false (KvStore.setDeadline env.now (-1) (-1)))

/-- One locked section of a command. -/
def next : Cmd → Stage → StoreM F Stage
  | .hsetnx db key field _, .start =>
    (fun found => if found then .done (.flag (.ok false)) else .mid none) <$>
      StoreM.peek db key fun o => o.any fun o => decide (o.type = .hash) && o.hash.contains field
  | .hsetnx db key field value, .mid _ =>
    (fun r => .done (.flag (r.map fun _ => true))) <$> KvStore.hset db key field value
  | .getset db key _, .start =>
    (fun r => match r with
      | .error e => .done (.value (.error e))
      | .ok old => .mid old) <$> KvStore.get db key
  | .getset _ _ _, .mid old => (fun _ => .late old) <$> KvStore.evictIfNeededLocked
  | .getset db key value, .late old => (fun _ => .done (.value (.ok old))) <$> setSection db key value
  | .getdel db key, .start =>
    (fun r => match r with
      | .error e => .done (.value (.error e))
      | .ok none => .done (.value (.ok none))
      | .ok (some v) => .mid (some v)) <$> KvStore.get db key
  | .getdel db key, .mid old => (fun _ => .done (.value (.ok old))) <$> KvStore.del db key
  | .rpoplpush db src _, .start =>
    (fun r => match r with
      | .ok (some v) => .mid (some v)
      | _ => .done (.value (.ok none))) <$> KvStore.listPop db src false
  | .rpoplpush db _ dst, .mid old =>
    (fun r => match r with
      | .error e => .done (.value (.error e))
      | .ok _ => .done (.value (.ok old))) <$> KvStore.listPush db dst old.toList true
  | _, st => pure st

/-- The key that a section locks. -/
def site : Cmd → Nat → Int × Bytes
  | .hsetnx db key _ _, _ => (db, key)
  | .getset db key _, _ => (db, key)
  | .getdel db key, _ => (db, key)
  | .rpoplpush db src dst, n => (db, if n = 0 then src else dst)

/-- The command calls `evictIfNeededLocked`. -/
def MakesRoom : Cmd → Prop
  | .getset _ _ _ => True
  | _ => False

instance : DecidablePred MakesRoom := fun c => by
  cases c <;> unfold MakesRoom <;> infer_instance

/-- The store's own operation. -/
def whole : Cmd → StoreM F Answer
  | .hsetnx db key field value => .flag <$> KvStore.hsetnx db key field value
  | .getset db key value => .value <$> KvStore.getset db key value
  | .getdel db key => .value <$> KvStore.getdel db key
  | .rpoplpush db src dst => .value <$> KvStore.listRPopLPush db src dst

end Cmd

/-- Section `nth` of command number `cmd` has its turn. -/
structure Turn where
  cmd : Nat
  nth : Nat
  env : Env

/-- The store and how far each command has come. -/
structure Clients (F : Type) [Platform F] where
  store : KvStore F
  stage : Nat → Stage

namespace Clients

/-- All commands before their first section. -/
def start (s : KvStore F) : Clients F := ⟨s, fun _ => .start⟩

/-- A turn runs the section if it is the one that comes next in its command. -/
def turn (cmds : List Cmd) (c : Clients F) (t : Turn) : Clients F :=
  match cmds[t.cmd]? with
  | none => c
  | some cmd =>
    if (c.stage t.cmd).nth = t.nth then
      let r := cmd.next (c.stage t.cmd) t.env c.store
      ⟨r.2, Function.update c.stage t.cmd r.1⟩
    else c

def run (cmds : List Cmd) (c : Clients F) (sched : List Turn) : Clients F :=
  sched.foldl (turn cmds) c

end Clients

/-- Settings, entries with their access times, and WATCH counters are equal. -/
structure SameStore (s t : KvStore F) : Prop where
  conf : t.conf = s.conf
  entry : t.entry = s.entry
  counters : t.counters = s.counters

/-- Replies and final store are those of the commands run one after the other in some order. -/
def Atomic (cmds : List Cmd) (s : KvStore F) (sched : List Turn) : Prop :=
  ∃ order : List Nat, order.Perm (owners Turn.cmd sched) ∧
    let one := Clients.run cmds (.start s) sched
    let other := Clients.run cmds (.start s) (serial Turn.cmd order sched)
    other.stage = one.stage ∧ SameStore one.store other.store

/-- The key holds no hash, or one without the field; it has no deadline. -/
def KvStore.Lacks (db : Int) (key field : Bytes) (s : KvStore F) : Prop :=
  ∀ o, s.item db key = some o →
    o.type = .hash ∧ o.hash.contains field = false ∧ o.expireAtMs ≤ 0

/-- If all commands are HSETNX on one absent field and all are done, one of them has set it. -/
def OneSets (cmds : List Cmd) (s : KvStore F) (sched : List Turn) : Prop :=
  ∀ db key field, s.Lacks db key field → cmds ≠ [] →
    (∀ c ∈ cmds, ∃ value, c = .hsetnx db key field value) →
    let c := Clients.run cmds (.start s) sched
    (∀ i < cmds.length, (c.stage i).nth = 3) → ∃! i, c.stage i = .done (.flag (.ok true))

/-- If all commands are GETDEL on one key, no two of them get its value. -/
def OneTakes (cmds : List Cmd) (s : KvStore F) (sched : List Turn) : Prop :=
  ∀ db key, (∀ c ∈ cmds, c = .getdel db key) →
    let c := Clients.run cmds (.start s) sched
    ∀ i j v w, c.stage i = .done (.value (.ok (some v))) → c.stage j = .done (.value (.ok (some w))) →
      i = j

/-- The turns fall on different keys. -/
def Apart (cmds : List Cmd) (x y : Turn) : Prop :=
  x.cmd ≠ y.cmd ∧ (cmds[x.cmd]?.map fun c => c.site x.nth) ≠ cmds[y.cmd]?.map fun c => c.site y.nth

instance (cmds : List Cmd) : DecidableRel (Apart cmds) := fun _ _ =>
  inferInstanceAs (Decidable (_ ∧ _))

/-- Nothing is evicted: the settings exclude it, or no command asks for room. -/
def Roomy (cmds : List Cmd) (conf : StoreConf) : Prop :=
  conf.NoEvict ∨ ∀ c ∈ cmds, ¬c.MakesRoom

/-! ## Sections are the store's operations cut in pieces -/

theorem Cmd.next_next_next (c : Cmd) (env : Env) (s : KvStore F) :
    (do c.next (← c.next (← c.next .start))) env s =
      (.done (c.whole env s).1, (c.whole env s).2) := by
  cases c with
  | hsetnx db key field value =>
    simp only [Cmd.next, Cmd.whole, KvStore.hsetnx, StoreM.map_apply, StoreM.bind_apply]
    cases (StoreM.peek db key _ env s).1 <;> rfl
  | getset db key value =>
    simp only [Cmd.next, Cmd.whole, KvStore.getset, StoreM.map_apply, StoreM.bind_apply]
    cases (KvStore.get db key env s).1 <;> rfl
  | getdel db key =>
    simp only [Cmd.next, Cmd.whole, KvStore.getdel, StoreM.map_apply, StoreM.bind_apply]
    rcases (KvStore.get db key env s).1 with e | _ | v <;> rfl
  | rpoplpush db src dst =>
    simp only [Cmd.next, Cmd.whole, KvStore.listRPopLPush, StoreM.map_apply, StoreM.bind_apply]
    rcases (KvStore.listPop db src false env s).1 with e | _ | v
    · rfl
    · rfl
    · simp only [Option.toList, StoreM.map_apply, StoreM.bind_apply]
      cases (KvStore.listPush db dst [v] true env (KvStore.listPop db src false env s).2).1 <;> rfl

/-! ## What a section sees and changes -/

/-- What a section makes of the entry it finds: its reply, the entry it leaves, and whether WATCH
is told. -/
structure Touch (F α : Type) where
  reply : α
  entry : Option (Entry F)
  bump : Bool := false

/-- The result `r` on `s` is what `f` makes of the entry at `site`. -/
structure Touches (site : Int × Bytes) (f : Option (Entry F) → Touch F α) (s : KvStore F)
    (r : α × KvStore F) : Prop where
  reply : r.1 = (f (s.entry site.1 site.2)).reply
  conf : r.2.conf = s.conf
  entry : ∀ db key, r.2.entry db key =
    if db = site.1 ∧ key = site.2 then (f (s.entry site.1 site.2)).entry else s.entry db key
  counters : r.2.counters = bumpIf F s.counters site.1 site.2 (f (s.entry site.1 site.2)).bump

/-- Under the settings `I`, the computation sees and changes one key only. -/
def OnKey (I : StoreConf → Prop) (site : Int × Bytes) (m : StoreM F α) : Prop :=
  ∃ f : Env → Option (Entry F) → Touch F α, ∀ env s, I s.conf → Touches site (f env) s (m env s)

variable {m : StoreM F α}

namespace OnKey

variable {I : StoreConf → Prop} {site : Int × Bytes} {db : Int} {key : Bytes}

theorem of_view (f : Env → Option (Entry F) → α)
    (h : ∀ env s, I s.conf → m env s = (f env (s.entry site.1 site.2), s)) : OnKey I site m := by
  refine ⟨fun env e => { reply := f env e, entry := e }, fun env s hs => ?_⟩
  rw [h env s hs]
  refine ⟨rfl, rfl, fun db key => ?_, rfl⟩
  split
  next hk => rw [hk.1, hk.2]
  · rfl

theorem pure (a : α) : OnKey I site (Pure.pure a : StoreM F α) := of_view (fun _ _ => a) fun _ _ _ => rfl

theorem map (g : α → β) (h : OnKey I site m) : OnKey I site (g <$> m) := by
  obtain ⟨f, hf⟩ := h
  refine ⟨fun env e => { f env e with reply := g (f env e).reply }, fun env s hs => ?_⟩
  have := hf env s hs
  exact ⟨congrArg g this.reply, this.conf, this.entry, this.counters⟩

theorem withEnv {m : Env → StoreM F α} (h : ∀ env, OnKey I site (m env)) :
    OnKey I site (StoreM.withEnv m) := by
  choose f hf using h
  exact ⟨fun env => f env env, fun env s hs => hf env env s hs⟩

theorem peek {f : Option (Item F) → α} : OnKey I (db, key) (StoreM.peek db key f) :=
  of_view (fun env e => f ((e.filter fun e => !e.expired env.now).map Entry.toItem)) fun env s _ => by
    unfold StoreM.peek
    rw [KvStore.live_eq_entry]

/-- What `onEntry` makes of an entry. -/
def touch (body : Option (Item F) → Out (Item F) α) (env : Env) (e : Option (Entry F)) : Touch F α :=
  let old := e.filter fun e => !e.expired env.now
  let out := body (old.map Entry.toItem)
  { reply := out.reply, entry := out.entry env.now old, bump := out.bump }

theorem touches_onEntry (body : Option (Item F) → Out (Item F) α) (env : Env) (s : KvStore F) :
    Touches (db, key) (touch body env) s (s.onEntry env.now db key body) := by
  refine ⟨rfl, KvStore.conf_onEntry .., fun db' key' => ?_, ?_⟩
  · unfold KvStore.onEntry
    simp only [apply_ite (fun t : KvStore F => t.entry db' key'), KvStore.entry_bumpWatchKey,
      KvStore.entry_putEntry, ite_self]
    rfl
  · rw [KvStore.counters_onEntry, KvStore.live_eq_entry]
    rfl

theorem onEntry {body : Option (Item F) → Out (Item F) α} :
    OnKey I (db, key) (StoreM.onEntry db key body) :=
  ⟨touch body, fun env s _ => touches_onEntry body env s⟩

/-- A database that is not there has no entry to see. -/
theorem onFound {absent : α} {body : Item F → Out (Item F) α} :
    OnKey I (db, key) (StoreM.onFound db key absent body) := by
  refine ⟨touch fun o => o.elim { reply := absent } body, fun env s _ => ?_⟩
  unfold StoreM.onFound KvStore.onFound
  split
  next h =>
    have hnone : s.entry db key = none := by simp [KvStore.entry, h]
    refine ⟨?_, rfl, fun db' key' => ?_, ?_⟩
    · rw [hnone]
      rfl
    · split
      next hk =>
        rw [hk.1, hk.2, hnone]
        rfl
      · rfl
    · rw [hnone]
      rfl
  next h => exact touches_onEntry _ env s

theorem onField {V : Type} {L : Field F V} {f : Option V → Out V (Except Bytes α)} :
    OnKey I (db, key) (StoreM.onField L db key f) := onEntry

theorem evict (hI : ∀ conf, I conf → conf.NoEvict) :
    OnKey I site (KvStore.evictIfNeededLocked : StoreM F Unit) :=
  of_view (fun _ _ => ()) fun env s hs => KvStore.evictIfNeededLocked_eq_of_noEvict env s (hI _ hs)

theorem del : OnKey I (db, key) (KvStore.del db key : StoreM F Bool) := by
  have h : OnKey I (db, key) ((fun n => decide (0 < n + 0)) <$> KvStore.delOne db key : StoreM F Bool) :=
    map _ onFound
  exact h

theorem listPush {values : List Bytes} {left : Bool} :
    OnKey I (db, key) (KvStore.listPush db key values left : StoreM F _) := by
  unfold KvStore.listPush
  split
  · exact pure _
  · exact onField

end OnKey

/-- Every section of a command sees and changes the key it locks. -/
theorem Cmd.onKey_next {I : StoreConf → Prop} (c : Cmd) (st : Stage)
    (hI : c.MakesRoom → ∀ conf, I conf → conf.NoEvict) :
    OnKey I (c.site st.nth) (c.next st : StoreM F Stage) := by
  cases c with
  | hsetnx db key field value =>
    cases st with
    | start => exact .map _ .peek
    | mid old => exact .map _ .onField
    | late old => exact .pure _
    | done a => exact .pure _
  | getset db key value =>
    cases st with
    | start => exact .map _ .onField
    | mid old => exact .map _ (.evict (hI trivial))
    | late old => exact .map _ (.withEnv fun env => .onEntry)
    | done a => exact .pure _
  | getdel db key =>
    cases st with
    | start => exact .map _ .onField
    | mid old => exact .map _ .del
    | late old => exact .pure _
    | done a => exact .pure _
  | rpoplpush db src dst =>
    cases st with
    | start => exact .map _ .onField
    | mid old => exact .map _ .listPush
    | late old => exact .pure _
    | done a => exact .pure _

/-! ## Sections on different keys change places -/

theorem Counters.bump_comm (c : Counters) (db db' : Int) (key key' : Bytes)
    (h : ¬(db' = db ∧ key' = key)) :
    (c.bump db key).bump db' key' = (c.bump db' key').bump db key := by
  unfold Counters.bump
  by_cases hon : c.on
  · simp only [hon, if_true]
    congr 1
    by_cases hdb : db' = db
    · subst hdb
      have hk : key' ≠ key := fun hk => h ⟨rfl, hk⟩
      have hc : compare key key' ≠ .eq := fun hc => hk (Std.LawfulEqCmp.eq_of_compare hc).symm
      have hc' : compare key' key ≠ .eq := fun hc => hk (Std.LawfulEqCmp.eq_of_compare hc)
      simp only [Function.update_self, Function.update_idem]
      congr 1
      rw [Std.ExtTreeMap.getElem?_insert, if_neg hc, Std.ExtTreeMap.getElem?_insert, if_neg hc']
      refine Std.ExtTreeMap.ext_getElem? fun k => ?_
      simp only [Std.ExtTreeMap.getElem?_insert]
      by_cases hk' : compare key' k = .eq
      · have hkk : compare key k ≠ .eq := fun hkk =>
          hk ((Std.LawfulEqCmp.eq_of_compare hk').trans (Std.LawfulEqCmp.eq_of_compare hkk).symm)
        rw [if_pos hk', if_neg hkk, if_pos hk']
      · rw [if_neg hk', if_neg hk']
    · rw [Function.update_of_ne hdb, Function.update_of_ne (Ne.symm hdb), Function.update_comm hdb]
  · simp [hon]

theorem bumpIf_comm (c : Fin 16 → Counters) (db db' : Int) (key key' : Bytes) (b b' : Bool)
    (h : ¬(db' = db ∧ key' = key)) :
    bumpIf F (bumpIf F c db key b) db' key' b' = bumpIf F (bumpIf F c db' key' b') db key b := by
  cases b with
  | false => rfl
  | true =>
    cases b' with
    | false => rfl
    | true =>
      unfold bumpIf
      simp only [if_true]
      by_cases hi : shardIdx F key' = shardIdx F key
      · rw [hi]
        simp only [Function.update_self, Function.update_idem]
        rw [Counters.bump_comm _ _ _ _ _ h]
      · rw [Function.update_of_ne hi, Function.update_of_ne (Ne.symm hi), Function.update_comm hi]

namespace SameStore

variable {s t u : KvStore F} {I : StoreConf → Prop} {site site' : Int × Bytes}

theorem refl (s : KvStore F) : SameStore s s := ⟨rfl, rfl, rfl⟩

theorem trans (h : SameStore s t) (h' : SameStore t u) : SameStore s u :=
  ⟨h'.conf.trans h.conf, h'.entry.trans h.entry, h'.counters.trans h.counters⟩

theorem respects (hm : OnKey I site m) (env : Env) (hs : I s.conf) (h : SameStore s t) :
    (m env t).1 = (m env s).1 ∧ SameStore (m env s).2 (m env t).2 := by
  obtain ⟨f, hf⟩ := hm
  have h1 := hf env s hs
  have h2 := hf env t (h.conf ▸ hs)
  refine ⟨?_, ?_, ?_, ?_⟩
  · rw [h2.reply, h1.reply, h.entry]
  · rw [h2.conf, h1.conf, h.conf]
  · funext db key
    rw [h2.entry, h1.entry, h.entry]
  · rw [h2.counters, h1.counters, h.counters, h.entry]

/-- Sections on different keys do not see each other. -/
theorem swap {m' : StoreM F β} (hm : OnKey I site m) (hm' : OnKey I site' m')
    (hne : site ≠ site') (env env' : Env) (hs : I s.conf) :
    (m' env' (m env s).2).1 = (m' env' s).1 ∧ (m env (m' env' s).2).1 = (m env s).1 ∧
      SameStore (m' env' (m env s).2).2 (m env (m' env' s).2).2 := by
  obtain ⟨f, hf⟩ := hm
  obtain ⟨f', hf'⟩ := hm'
  have h := hf env s hs
  have h' := hf' env' s hs
  have hthen := hf' env' (m env s).2 (h.conf ▸ hs)
  have hthen' := hf env (m' env' s).2 (h'.conf ▸ hs)
  have hoff : ¬(site'.1 = site.1 ∧ site'.2 = site.2) := fun hk => hne (Prod.ext hk.1.symm hk.2.symm)
  have hoff' : ¬(site.1 = site'.1 ∧ site.2 = site'.2) := fun hk => hne (Prod.ext hk.1 hk.2)
  -- Neither section changes the entry that the other one sees.
  have he : (m env s).2.entry site'.1 site'.2 = s.entry site'.1 site'.2 := by
    rw [h.entry, if_neg hoff]
  have he' : (m' env' s).2.entry site.1 site.2 = s.entry site.1 site.2 := by
    rw [h'.entry, if_neg hoff']
  refine ⟨?_, ?_, ?_, ?_, ?_⟩
  · rw [hthen.reply, he, h'.reply]
  · rw [hthen'.reply, he', h.reply]
  · rw [hthen'.conf, h'.conf, hthen.conf, h.conf]
  · funext db key
    rw [hthen'.entry, hthen.entry, he, he', h.entry, h'.entry]
    by_cases hk : db = site.1 ∧ key = site.2
    · have hk' : ¬(db = site'.1 ∧ key = site'.2) := fun hk' => hoff ⟨hk'.1 ▸ hk.1, hk'.2 ▸ hk.2⟩
      rw [if_pos hk, if_neg hk', if_pos hk]
    · rw [if_neg hk, if_neg hk]
  · rw [hthen'.counters, hthen.counters, he, he', h.counters, h'.counters, bumpIf_comm _ _ _ _ _ _ _ hoff]

end SameStore

/-! ## Runs -/

variable {i : Nat}

namespace Clients

variable {cmds : List Cmd} {c d : Clients F}

/-- Equal stores, and every command as far along with the same answer. -/
structure Same (c d : Clients F) : Prop where
  store : SameStore c.store d.store
  stage : d.stage = c.stage

theorem turn_of_none {t : Turn} (h : cmds[t.cmd]? = none) : c.turn cmds t = c := by
  unfold turn
  rw [h]

theorem turn_of_ne {t : Turn} (h : (c.stage t.cmd).nth ≠ t.nth) : c.turn cmds t = c := by
  unfold turn
  split
  · rfl
  · exact if_neg h

theorem turn_of_eq {cmd : Cmd} {t : Turn} (h : cmds[t.cmd]? = some cmd)
    (hn : (c.stage t.cmd).nth = t.nth) : c.turn cmds t =
      ⟨(cmd.next (c.stage t.cmd) t.env c.store).2,
        Function.update c.stage t.cmd (cmd.next (c.stage t.cmd) t.env c.store).1⟩ := by
  unfold turn
  rw [h]
  exact if_pos hn

theorem stage_turn_of_ne {t : Turn} (h : i ≠ t.cmd) : (c.turn cmds t).stage i = c.stage i := by
  unfold turn
  split
  · rfl
  · split
    · exact Function.update_of_ne h _ _
    · rfl

theorem onKey_next {conf : StoreConf} (hroom : Roomy cmds conf) {cmd : Cmd}
    (h : cmds[i]? = some cmd) (st : Stage) :
    OnKey (· = conf) (cmd.site st.nth) (cmd.next st : StoreM F Stage) := by
  refine cmd.onKey_next st fun hmakes conf' hconf => ?_
  rcases hroom with hno | hnone
  · exact hconf ▸ hno
  · exact absurd hmakes (hnone cmd (List.mem_of_getElem? h))

theorem conf_turn (hroom : Roomy cmds c.store.conf) (t : Turn) :
    (c.turn cmds t).store.conf = c.store.conf := by
  by_cases hn : (c.stage t.cmd).nth = t.nth
  · cases hc : cmds[t.cmd]? with
    | none => rw [turn_of_none hc]
    | some cmd =>
      rw [turn_of_eq hc hn]
      obtain ⟨f, hf⟩ := onKey_next (F := F) hroom hc (c.stage t.cmd)
      exact (hf t.env c.store rfl).conf
  · rw [turn_of_ne hn]

theorem same_turn (hroom : Roomy cmds c.store.conf) (h : Same c d) (t : Turn) :
    Same (c.turn cmds t) (d.turn cmds t) := by
  by_cases hn : (c.stage t.cmd).nth = t.nth
  · have hn' : (d.stage t.cmd).nth = t.nth := by rw [h.stage, hn]
    cases hc : cmds[t.cmd]? with
    | none =>
      rw [turn_of_none hc, turn_of_none hc]
      exact h
    | some cmd =>
      rw [turn_of_eq hc hn, turn_of_eq hc hn', h.stage]
      obtain ⟨hreply, hstore⟩ := h.store.respects (onKey_next hroom hc (c.stage t.cmd)) t.env rfl
      exact ⟨hstore, by simp only [hreply]⟩
  · have hn' : (d.stage t.cmd).nth ≠ t.nth := by rwa [h.stage]
    rw [turn_of_ne hn, turn_of_ne hn']
    exact h

/-- Turns of two commands on different keys change places. -/
theorem swap_turn (hroom : Roomy cmds c.store.conf) {x y : Turn} (h : Apart cmds x y) :
    Same ((c.turn cmds x).turn cmds y) ((c.turn cmds y).turn cmds x) := by
  obtain ⟨hne, hsite⟩ := h
  have hx' : (c.turn cmds y).stage x.cmd = c.stage x.cmd := stage_turn_of_ne hne
  have hy' : (c.turn cmds x).stage y.cmd = c.stage y.cmd := stage_turn_of_ne (Ne.symm hne)
  by_cases hnx : (c.stage x.cmd).nth = x.nth
  · by_cases hny : (c.stage y.cmd).nth = y.nth
    · cases hx : cmds[x.cmd]? with
      | none =>
        rw [turn_of_none hx, turn_of_none hx]
        exact ⟨.refl _, rfl⟩
      | some a =>
        cases hy : cmds[y.cmd]? with
        | none =>
          rw [turn_of_none hy, turn_of_none hy]
          exact ⟨.refl _, rfl⟩
        | some b =>
          rw [hx, hy] at hsite
          have hoff : a.site (c.stage x.cmd).nth ≠ b.site (c.stage y.cmd).nth := by
            rw [hnx, hny]
            exact fun hs => hsite (congrArg some hs)
          obtain ⟨hry, hrx, hstore⟩ := SameStore.swap (onKey_next hroom hx (c.stage x.cmd))
            (onKey_next hroom hy (c.stage y.cmd)) hoff x.env y.env rfl
          have hnx' : ((c.turn cmds y).stage x.cmd).nth = x.nth := by rw [hx', hnx]
          have hny' : ((c.turn cmds x).stage y.cmd).nth = y.nth := by rw [hy', hny]
          rw [turn_of_eq hy hny', turn_of_eq hx hnx', hx', hy', turn_of_eq hx hnx, turn_of_eq hy hny]
          refine ⟨hstore, ?_⟩
          simp only [hrx, hry]
          exact Function.update_comm (Ne.symm hne) _ _ _
    · have hny' : ((c.turn cmds x).stage y.cmd).nth ≠ y.nth := by rwa [hy']
      rw [turn_of_ne hny', turn_of_ne hny]
      exact ⟨.refl _, rfl⟩
  · have hnx' : ((c.turn cmds y).stage x.cmd).nth ≠ x.nth := by rwa [hx']
    rw [turn_of_ne hnx', turn_of_ne hnx]
    exact ⟨.refl _, rfl⟩

theorem exchange (cmds : List Cmd) (conf : StoreConf) (hroom : Roomy cmds conf) :
    Exchange (fun c : Clients F => c.store.conf = conf) Same (turn cmds) (Apart cmds) where
  keeps _ t hc := (conf_turn (hc ▸ hroom) t).trans hc
  refl _ := ⟨.refl _, rfl⟩
  trans _ _ _ h h' := ⟨h.store.trans h'.store, h'.stage.trans h.stage⟩
  respects _ _ t hc _ h := same_turn (hc ▸ hroom) h t
  swap _ _ _ hc h := swap_turn (hc ▸ hroom) h

theorem same_serial (s : KvStore F) (sched : List Turn) (hroom : Roomy cmds s.conf)
    (h : Uninterrupted Turn.cmd (Apart cmds) sched) :
    Same (run cmds (.start s) sched)
      (run cmds (.start s) (serial Turn.cmd (owners Turn.cmd sched) sched)) :=
  (exchange cmds s.conf hroom).serial sched rfl h

/-! ## Sequential runs -/

theorem stage_run_of_ne {l : List Turn} (h : ∀ t ∈ l, t.cmd ≠ i) :
    (c.run cmds l).stage i = c.stage i := by
  induction l generalizing c with
  | nil => rfl
  | cons t l ih =>
    have ht := h t List.mem_cons_self
    have hl := ih (c := c.turn cmds t) fun t' ht' => h t' (List.mem_cons_of_mem t ht')
    exact hl.trans (stage_turn_of_ne (Ne.symm ht))

theorem run_block (cmds : List Cmd) (c : Clients F) {J : Stage → KvStore F → Prop} {l : List Turn}
    (hJ : ∀ cmd ∈ cmds, ∀ st env s, J st s → J (cmd.next st env s).1 (cmd.next st env s).2)
    (hl : ∀ t ∈ l, t.cmd = i) (h : J (c.stage i) c.store) :
    J ((c.run cmds l).stage i) (c.run cmds l).store := by
  induction l generalizing c with
  | nil => exact h
  | cons t l ih =>
    refine ih (c.turn cmds t) (fun t' ht' => hl t' (List.mem_cons_of_mem t ht')) ?_
    have ht := hl t List.mem_cons_self
    subst ht
    by_cases hn : (c.stage t.cmd).nth = t.nth
    · cases hc : cmds[t.cmd]? with
      | none =>
        rw [turn_of_none hc]
        exact h
      | some cmd =>
        rw [turn_of_eq hc hn]
        simp only [Function.update_self]
        exact hJ cmd (List.mem_of_getElem? hc) _ t.env c.store h
    · rw [turn_of_ne hn]
      exact h

/-- The turns that a command has to itself leave a store of `P` and the command as `lost` says, or
take the store to `Q` and the command to `won`. -/
def Settles (cmds : List Cmd) (P : KvStore F → Prop) (lost : Stage → Prop) (Q : KvStore F → Prop)
    (won : Stage → Prop) : Prop :=
  ∀ (c : Clients F) i l, (∀ t ∈ l, t.cmd = i) → c.stage i = .start → P c.store →
    let c' := c.run cmds l
    (P c'.store ∧ lost (c'.stage i)) ∨ (Q c'.store ∧ won (c'.stage i))

theorem run_serial_cons (cmds : List Cmd) (c : Clients F) {order : List Nat}
    (hnd : (i :: order).Nodup) (sched : List Turn) :
    let mine := sched.filter fun t => decide (t.cmd = i)
    c.run cmds (serial Turn.cmd (i :: order) sched) =
        (c.run cmds mine).run cmds (serial Turn.cmd order sched) ∧
      (c.run cmds (serial Turn.cmd (i :: order) sched)).stage i = (c.run cmds mine).stage i ∧
      ∀ j ∈ order, (c.run cmds mine).stage j = c.stage j := by
  intro mine
  have hi : i ∉ order := (List.nodup_cons.mp hnd).1
  have happ : c.run cmds (serial Turn.cmd (i :: order) sched) =
      (c.run cmds mine).run cmds (serial Turn.cmd order sched) := List.foldl_append ..
  refine ⟨happ, ?_, fun j hj => stage_run_of_ne fun t ht hti => ?_⟩
  · rw [happ]
    exact stage_run_of_ne fun t ht hti => hi (hti ▸ own_mem_of_mem_serial ht)
  · rw [List.mem_filter, decide_eq_true_eq] at ht
    exact hi (ht.2 ▸ hti ▸ hj)

theorem own_of_mem_filter {sched : List Turn} {t : Turn}
    (h : t ∈ sched.filter fun t => decide (t.cmd = i)) : t.cmd = i := by
  rw [List.mem_filter, decide_eq_true_eq] at h
  exact h.2

/-- When nobody can win, every command loses. -/
theorem no_winner {P : KvStore F → Prop} {lost : Stage → Prop}
    (hP : Settles cmds P lost (fun _ => False) fun _ => False) (sched : List Turn) (order : List Nat)
    (hnd : order.Nodup) (hstart : ∀ i ∈ order, c.stage i = .start) (h : P c.store) :
    ∀ i ∈ order, lost ((c.run cmds (serial Turn.cmd order sched)).stage i) := by
  induction order generalizing c with
  | nil =>
    intro i hi
    cases hi
  | cons i order ih =>
    obtain ⟨happ, hfirst, hrest⟩ := run_serial_cons cmds c hnd sched
    obtain ⟨hstore, hlost⟩ := (hP c i _ (fun _ => own_of_mem_filter)
      (hstart i List.mem_cons_self) h).resolve_right fun hno => hno.1
    intro j hj
    rcases List.mem_cons.mp hj with rfl | hj
    · rw [hfirst]
      exact hlost
    · rw [happ]
      refine ih (List.nodup_cons.mp hnd).2 (fun k hk => ?_) hstore j hj
      rw [hrest k hk]
      exact hstart k (List.mem_cons_of_mem i hk)

/-- When the first to win leaves nothing to win, all lose or all but one do. -/
theorem one_winner {P Q : KvStore F → Prop} {lost won lost' : Stage → Prop}
    (hP : Settles cmds P lost Q won) (hQ : Settles cmds Q lost' (fun _ => False) fun _ => False)
    (sched : List Turn) (order : List Nat) (hnd : order.Nodup)
    (hstart : ∀ i ∈ order, c.stage i = .start) (h : P c.store) :
    let c' := c.run cmds (serial Turn.cmd order sched)
    (∀ i ∈ order, lost (c'.stage i)) ∨
      ∃ i ∈ order, won (c'.stage i) ∧ ∀ j ∈ order, j ≠ i → lost (c'.stage j) ∨ lost' (c'.stage j) := by
  induction order generalizing c with
  | nil => exact .inl fun i hi => by cases hi
  | cons i order ih =>
    obtain ⟨happ, hfirst, hrest⟩ := run_serial_cons cmds c hnd sched
    have hnd' := (List.nodup_cons.mp hnd).2
    have hstart' : ∀ k ∈ order, (c.run cmds _).stage k = .start := fun k hk => by
      rw [hrest k hk]
      exact hstart k (List.mem_cons_of_mem i hk)
    rcases hP c i _ (fun _ => own_of_mem_filter) (hstart i List.mem_cons_self) h with
      ⟨hstore, hlost⟩ | ⟨hstore, hwon⟩
    · rw [← hfirst] at hlost
      rcases ih hnd' hstart' hstore with hall | ⟨k, hk, hwon, hothers⟩
      · refine .inl fun j hj => ?_
        rcases List.mem_cons.mp hj with rfl | hj
        · exact hlost
        · rw [happ]
          exact hall j hj
      · refine .inr ⟨k, List.mem_cons_of_mem i hk, by rw [happ]; exact hwon, fun j hj hne => ?_⟩
        rcases List.mem_cons.mp hj with rfl | hj
        · exact .inl hlost
        · rw [happ]
          exact hothers j hj hne
    · -- From here on nobody wins.
      rw [← hfirst] at hwon
      refine .inr ⟨i, List.mem_cons_self, hwon, fun j hj hne => .inr ?_⟩
      rw [happ]
      exact no_winner hQ sched order hnd' hstart' hstore j ((List.mem_cons.mp hj).resolve_left hne)

end Clients

/-! ## HSETNX on one field -/

section hsetnx

variable {db : Int} {key field value : Bytes} {s : KvStore F} {env : Env}

/-- The key holds a hash with the field, without a deadline. -/
def KvStore.Holds (db : Int) (key field : Bytes) (s : KvStore F) : Prop :=
  ∃ o, s.item db key = some o ∧
    o.type = .hash ∧ o.hash.contains field = true ∧ o.expireAtMs ≤ 0

omit [Platform F] in
theorem Item.not_expired {o : Item F} (h : o.expireAtMs ≤ 0) (now : Int) : o.expired now = false := by
  unfold Item.expired
  rw [decide_eq_false (by omega : ¬0 < o.expireAtMs), Bool.false_and]

theorem live_of_item {o : Item F} (h : s.item db key = some o) (hd : o.expireAtMs ≤ 0) (now : Int) :
    s.live now db key = some o := by
  simp [KvStore.live, h, Item.not_expired hd]

theorem hasType_of_lacks (h : s.Lacks db key field) :
    HasType (Field.hash : Field F _) env.now db key s := fun o hl =>
  (h o (KvStore.item_of_live hl)).1

theorem next_start_of_lacks (h : s.Lacks db key field) :
    (Cmd.hsetnx db key field value).next .start env s = (.mid none, s) := by
  have hnot : ((s.live env.now db key).any fun o =>
      decide (o.type = .hash) && o.hash.contains field) = false := by
    cases hl : s.live env.now db key with
    | none => rfl
    | some o => simp [(h o (KvStore.item_of_live hl)).2.1]
  simp only [Cmd.next, StoreM.map_apply, StoreM.peek, hnot]
  rfl

theorem next_start_of_holds (h : s.Holds db key field) :
    (Cmd.hsetnx db key field value).next .start env s = (.done (.flag (.ok false)), s) := by
  obtain ⟨o, ho, ht, hf, hd⟩ := h
  have hfound : ((s.live env.now db key).any fun o =>
      decide (o.type = .hash) && o.hash.contains field) = true := by
    rw [live_of_item ho hd]
    simp [ht, hf]
  simp only [Cmd.next, StoreM.map_apply, StoreM.peek, hfound]
  rfl

theorem next_mid_of_lacks (old : Option Bytes) (h : s.Lacks db key field) :
    ((Cmd.hsetnx db key field value).next (.mid old) env s).1 = .done (.flag (.ok true)) ∧
      ((Cmd.hsetnx db key field value).next (.mid old) env s).2.Holds db key field := by
  constructor
  · simp only [Cmd.next, StoreM.map_apply, KvStore.hset]
    rw [onField_reply (hasType_of_lacks h)]
    rfl
  · simp only [Cmd.next, StoreM.map_apply]
    unfold KvStore.hset StoreM.onField StoreM.onFieldOr StoreM.onObj StoreM.onEntry KvStore.Holds
    rw [KvStore.item_onEntry, if_pos ⟨rfl, rfl⟩]
    cases hl : s.live env.now db key with
    | none =>
      refine ⟨_, rfl, rfl, ?_, Int.le_refl 0⟩
      exact Std.ExtTreeMap.contains_insert_self
    | some o =>
      obtain ⟨ht, -, hd⟩ := h o (KvStore.item_of_live hl)
      unfold liftBody
      simp only [Option.map_some]
      rw [Field.body_of_type ht]
      refine ⟨_, rfl, ht, ?_, hd⟩
      exact Std.ExtTreeMap.contains_insert_self

variable {cmds : List Cmd}

theorem settles_lacks (hc : ∀ c ∈ cmds, ∃ value, c = .hsetnx db key field value) :
    Clients.Settles cmds (KvStore.Lacks db key field : KvStore F → Prop) (fun st => st.nth ≠ 3)
      (KvStore.Holds db key field) (· = .done (.flag (.ok true))) := by
  intro c i l hl hstart hlacks
  -- Either the field has not been set yet, or this command has set it.
  have hJ := Clients.run_block cmds c (l := l)
    (J := fun st s => (st.nth < 2 ∧ s.Lacks db key field) ∨
      (st = .done (.flag (.ok true)) ∧ s.Holds db key field)) ?_ hl ?_
  · rcases hJ with ⟨hn, hs⟩ | ⟨hd, hs⟩
    · exact .inl ⟨hs, by omega⟩
    · exact .inr ⟨hs, hd⟩
  · intro cmd hcmd st env s hJ
    obtain ⟨value, rfl⟩ := hc cmd hcmd
    rcases hJ with ⟨hn, hs⟩ | ⟨rfl, hs⟩
    · cases st with
      | start =>
        rw [next_start_of_lacks hs]
        exact .inl ⟨Nat.one_lt_two, hs⟩
      | mid old => exact .inr (next_mid_of_lacks old hs)
      | late old => exact absurd hn (Nat.lt_irrefl 2)
      | done a => exact absurd hn (by simp [Stage.nth])
    · exact .inr ⟨rfl, hs⟩
  · rw [hstart]
    exact .inl ⟨by decide, hlacks⟩

theorem settles_holds (hc : ∀ c ∈ cmds, ∃ value, c = .hsetnx db key field value) :
    Clients.Settles cmds (KvStore.Holds db key field : KvStore F → Prop)
      (· ≠ .done (.flag (.ok true))) (fun _ => False) fun _ => False := by
  intro c i l hl hstart hholds
  have hJ := Clients.run_block cmds c (l := l)
    (J := fun st s => (st = .start ∨ st = .done (.flag (.ok false))) ∧ s.Holds db key field) ?_ hl ?_
  · obtain ⟨hst, hs⟩ := hJ
    refine .inl ⟨hs, fun hd => ?_⟩
    rw [hd] at hst
    simp at hst
  · rintro cmd hcmd st env s ⟨hst, hs⟩
    obtain ⟨value, rfl⟩ := hc cmd hcmd
    rcases hst with rfl | rfl
    · rw [next_start_of_holds hs]
      exact ⟨.inr rfl, hs⟩
    · exact ⟨.inr rfl, hs⟩
  · exact ⟨.inl hstart, hholds⟩

end hsetnx

/-! ## GETDEL on one key -/

section getdel

variable {db : Int} {key : Bytes} {s : KvStore F} {env : Env} {cmds : List Cmd}

theorem item_next_mid (old : Option Bytes) :
    ((Cmd.getdel db key).next (.mid old) env s).2.item db key = none := by
  simp only [Cmd.next, StoreM.map_apply]
  show (StoreM.onFound db key _ _ env s).2.item db key = none
  unfold StoreM.onFound
  rw [KvStore.item_onFound, if_pos ⟨rfl, rfl⟩]
  cases s.live env.now db key <;> rfl

theorem get_of_none (env : Env) (h : s.item db key = none) :
    (KvStore.get db key env s).1 = .ok none ∧ (KvStore.get db key env s).2.item db key = none := by
  have hl : s.live env.now db key = none := by simp [KvStore.live, h]
  unfold KvStore.get StoreM.onField StoreM.onFieldOr StoreM.onObj StoreM.onEntry
  rw [KvStore.onEntry_reply, KvStore.item_onEntry, if_pos ⟨rfl, rfl⟩, hl]
  exact ⟨rfl, rfl⟩

theorem settles_any (hc : ∀ c ∈ cmds, c = .getdel db key) :
    Clients.Settles cmds (fun _ : KvStore F => True) (fun st => ∀ v, st ≠ .done (.value (.ok (some v))))
      (fun s => s.item db key = none) fun st => ∃ v, st = .done (.value (.ok (some v))) := by
  intro c i l hl hstart _
  have hJ := Clients.run_block cmds c (l := l)
    (J := fun st s => ∀ v, st = .done (.value (.ok (some v))) → s.item db key = none) ?_ hl ?_
  · by_cases hwon : ∃ v, (c.run cmds l).stage i = .done (.value (.ok (some v)))
    · obtain ⟨v, hv⟩ := hwon
      exact .inr ⟨hJ v hv, v, hv⟩
    · exact .inl ⟨trivial, fun v hv => hwon ⟨v, hv⟩⟩
  · intro cmd hcmd st env s hJ v hv
    cases hc cmd hcmd
    cases st with
    | start =>
      rcases hg : (KvStore.get db key env s).1 with e | _ | w <;> simp [Cmd.next, hg] at hv
    | mid old => exact item_next_mid old
    | late old => exact hJ v hv
    | done a => exact hJ v hv
  · intro v hv
    rw [hstart] at hv
    cases hv

theorem settles_none (hc : ∀ c ∈ cmds, c = .getdel db key) :
    Clients.Settles cmds (fun s : KvStore F => s.item db key = none)
      (fun st => ∀ v, st ≠ .done (.value (.ok (some v)))) (fun _ => False) fun _ => False := by
  intro c i l hl hstart hnone
  have hJ := Clients.run_block cmds c (l := l)
    (J := fun st s => (st = .start ∨ st = .done (.value (.ok none))) ∧ s.item db key = none) ?_ hl ?_
  · obtain ⟨hst, hs⟩ := hJ
    refine .inl ⟨hs, fun v hd => ?_⟩
    rw [hd] at hst
    simp at hst
  · rintro cmd hcmd st env s ⟨hst, hs⟩
    cases hc cmd hcmd
    rcases hst with rfl | rfl
    · obtain ⟨hreply, hitem⟩ := get_of_none env hs
      refine ⟨.inr ?_, hitem⟩
      simp only [Cmd.next, StoreM.map_apply, hreply]
    · exact ⟨.inr rfl, hs⟩
  · exact ⟨.inl hstart, hnone⟩

end getdel

/-! ## Top theorem -/

theorem stage_of_not_mem {cmds : List Cmd} {s : KvStore F} {sched : List Turn}
    (h : i ∉ owners Turn.cmd sched) : (Clients.run cmds (.start s) sched).stage i = .start :=
  Clients.stage_run_of_ne fun t ht hti => h (mem_owners.mpr ⟨t, ht, hti⟩)

/-- **An uninterrupted run is atomic.** -/
theorem atomic_of_uninterrupted (cmds : List Cmd) (s : KvStore F) (sched : List Turn)
    (hroom : Roomy cmds s.conf) (h : Uninterrupted Turn.cmd (Apart cmds) sched) :
    Atomic cmds s sched ∧ OneSets cmds s sched ∧ OneTakes cmds s sched := by
  have hsame := Clients.same_serial s sched hroom h
  have hstart : ∀ i ∈ owners Turn.cmd sched, (Clients.start s).stage i = .start := fun _ _ => rfl
  refine ⟨⟨owners Turn.cmd sched, .refl _, hsame.stage, hsame.store⟩, ?_, ?_⟩
  · intro db key field hlacks hne hc c hdone
    have hone := Clients.one_winner (settles_lacks hc) (settles_holds hc) sched
      (owners Turn.cmd sched) (nodup_owners sched) hstart hlacks
    simp only [hsame.stage] at hone
    rcases hone with hall | ⟨i, hi, hwon, hothers⟩
    · -- The first command is done and has not lost.
      have hpos : 0 < cmds.length := List.length_pos_iff.mpr hne
      by_cases hmem : 0 ∈ owners Turn.cmd sched
      · exact absurd (hdone 0 hpos) (hall 0 hmem)
      · have := hdone 0 hpos
        rw [stage_of_not_mem hmem] at this
        cases this
    · refine ⟨i, hwon, fun j hj => ?_⟩
      by_contra hji
      by_cases hmem : j ∈ owners Turn.cmd sched
      · rcases hothers j hmem hji with hlost | hlost
        · exact hlost (by rw [hj]; rfl)
        · exact hlost hj
      · cases (stage_of_not_mem hmem).symm.trans hj
  · intro db key hc c i j v w hi hj
    have hone := Clients.one_winner (settles_any hc) (settles_none hc) sched
      (owners Turn.cmd sched) (nodup_owners sched) hstart trivial
    simp only [hsame.stage] at hone
    have hmem : ∀ k u, c.stage k = .done (.value (.ok (some u))) → k ∈ owners Turn.cmd sched := by
      intro k u hk
      by_contra hnot
      rw [stage_of_not_mem hnot] at hk
      cases hk
    rcases hone with hall | ⟨k, -, -, hothers⟩
    · exact absurd hi (hall i (hmem i v hi) v)
    · have honly : ∀ m u, c.stage m = .done (.value (.ok (some u))) → m = k := by
        intro m u hm
        by_contra hmk
        rcases hothers m (hmem m u hm) hmk with hlost | hlost <;> exact hlost u hm
      rw [honly i v hi, honly j w hj]

/-- Between the sections of an HSETNX others may work on other keys. -/
theorem atomic_other_keys :
    let cmds := [Cmd.hsetnx 0 (lit "h") (lit "f") (lit "1"), .getset 0 (lit "k") (lit "2"),
      .rpoplpush 0 (lit "a") (lit "b")]
    let sched : List Turn := [⟨0, 0, { now := 1 }⟩, ⟨1, 0, { now := 2 }⟩, ⟨2, 0, { now := 3 }⟩,
      ⟨1, 1, { now := 4 }⟩, ⟨0, 1, { now := 5 }⟩, ⟨1, 2, { now := 6 }⟩]
    Roomy cmds (KvStore.empty : KvStore Int).conf ∧ Uninterrupted Turn.cmd (Apart cmds) sched ∧
      Atomic cmds (KvStore.empty : KvStore Int) sched :=
  ⟨.inl (by decide), by decide +kernel,
    (atomic_of_uninterrupted _ _ _ (.inl (by decide)) (by decide)).1⟩

/-- Two HSETNX look before either sets the field: both answer `1`, as in no sequential order. -/
theorem hsetnx_both_set :
    let cmds := [Cmd.hsetnx 0 (lit "h") (lit "f") (lit "1"), .hsetnx 0 (lit "h") (lit "f") (lit "2")]
    let sched : List Turn := [⟨0, 0, { now := 1 }⟩, ⟨1, 0, { now := 2 }⟩, ⟨0, 1, { now := 3 }⟩,
      ⟨1, 1, { now := 4 }⟩]
    let c := Clients.run cmds (.start (KvStore.empty : KvStore Int)) sched
    c.stage 0 = .done (.flag (.ok true)) ∧ c.stage 1 = .done (.flag (.ok true)) ∧
      ¬Atomic cmds (KvStore.empty : KvStore Int) sched := by
  refine ⟨by decide, by decide, ?_⟩
  rintro ⟨order, hperm, hstage, -⟩
  have hperm : order.Perm [0, 1] := hperm
  have horder : order = [0, 1] ∨ order = [1, 0] := by
    obtain ⟨a, b, rfl⟩ := List.length_eq_two.mp hperm.length_eq
    have ha : a ∈ [0, 1] := hperm.subset (by simp)
    have hb : b ∈ [0, 1] := hperm.subset (by simp)
    have hne : [a, b].Nodup := hperm.nodup_iff.mpr (by decide)
    simp only [List.mem_cons, List.not_mem_nil, or_false] at ha hb
    rcases ha with rfl | rfl <;> rcases hb with rfl | rfl <;> simp at hne ⊢
  rcases horder with rfl | rfl
  · have := congrFun hstage 1
    revert this
    decide
  · have := congrFun hstage 0
    revert this
    decide

end Kv
