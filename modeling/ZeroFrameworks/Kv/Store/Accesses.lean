import ZeroFrameworks.Kv.Store.Eviction
import ZeroFrameworks.Kv.Store.Ops
import ZeroFrameworks.Kv.Store.SetAlgebra

/-!
# What operations access

`KvOp.accessed` names the keys whose values an operation reads or writes, `KvOp.Fresh` says which operations call
`touchEntry` on all of them.  `Refreshed` is what such an operation does to the access times: those of the named
keys that hold a value of the operation's type are the clock reading, the others are what they were.

    op.Fresh env s → Refreshed env.now (op.accessed env.now s) op.takes s (runOp op env s).2   (refreshed_runOp)
-/

namespace Kv

variable {F : Type} {α : Type}

/-! ## What operations access -/

variable [Platform F]

namespace KvStore

/-- The type of the live value of a key. -/
def typeAt (now : Int) (s : KvStore F) (db : Int) (key : Bytes) : Option ObjType :=
  (s.live now db key).map fun o => o.type

/-- The key holds a value of another type. -/
def Other (now : Int) (s : KvStore F) (db : Int) (key : Bytes) (type : ObjType) : Prop :=
  ∃ t, s.typeAt now db key = some t ∧ t ≠ type

/-- The sources the set algebra reads: as far as one that is missing, for an intersection, or of another type. -/
def sources (now : Int) (s : KvStore F) (db : Int) (keys : List Bytes) : SetOp → List Bytes
  | .inter => keys.takeWhile fun k => decide (s.typeAt now db k = some .set)
  | .union => keys.takeWhile fun k => (s.typeAt now db k).all (· = .set)
  | .diff =>
    if keys.head?.bind (s.typeAt now db) = some .set then
      keys.takeWhile fun k => (s.typeAt now db k).all (· = .set)
    else []

/-- The set algebra meets a source of another type. -/
def stopped (now : Int) (s : KvStore F) (db : Int) (keys : List Bytes) (op : SetOp) : Bool :=
  (keys.drop (s.sources now db keys op).length).head?.any fun k => (s.typeAt now db k).any (· ≠ .set)

end KvStore

/-- The part of the live value of a key, when it is of this type. -/
def Field.at {V : Type} (L : Field F V) (now : Int) (s : KvStore F) (db : Int) (key : Bytes) : Option V :=
  (s.live now db key).bind fun o => if o.type = L.type then some (L.get o.toObj) else none

namespace KvOp

/-- The type of value the operation is for; RENAME and RESTORE write any. -/
def kind : KvOp F α → Option ObjType
  | .renameKey .. | .restoreKey .. => none
  | .hset .. | .hsetnx .. | .hsetFields .. | .hmset .. | .hget .. | .hmget .. | .hdel .. | .hexists .. | .hlen ..
  | .hgetall .. | .hkeys .. | .hvals .. | .hincrby .. | .hscan .. => some .hash
  | .listPush .. | .listPop .. | .listLen .. | .listRange .. | .listIndex .. | .listTrim .. | .listSet ..
  | .listRem .. | .listInsert .. | .listRPopLPush .. => some .list
  | .setAdd .. | .setRem .. | .setMembers .. | .setCard .. | .setIsMember .. | .sscan .. | .spop .. | .setInter ..
  | .setUnion .. | .setDiff .. | .setInterStore .. | .setUnionStore .. | .setDiffStore .. => some .set
  | .zadd .. | .zaddOpt .. | .zrem .. | .zscore .. | .zcard .. | .zrange .. | .zrangeByScore .. | .zcount ..
  | .zincrby .. | .zrank .. | .zpopmin .. | .zpopmax .. | .zscan .. => some .zset
  | .xadd .. | .xlen .. | .xrange .. | .xdel .. | .xtrim .. | .xread .. | .xgroupCreate .. | .xgroupDestroy ..
  | .xreadGroup .. | .xack .. | .xpendingSummary .. | .xpendingRange .. | .xclaim .. => some .stream
  | _ => some .string

/-- The STORE forms leave what they give under the destination. -/
def storeAccessed (now : Int) (s : KvStore F) (db : Int) (dest : Bytes) (keys : List Bytes) (op : SetOp) :
    List (Int × Bytes) :=
  (s.sources now db keys op).map (fun k => (db, k)) ++ if s.stopped now db keys op then [] else [(db, dest)]

/-- The keys whose values the operation reads or writes, where they are of its type. -/
def accessed (now : Int) (s : KvStore F) : KvOp F α → List (Int × Bytes)
  | .get db key | .set db key _ | .setex db key _ _ | .setOpt db key _ _ _ _ _ | .getset db key _ | .getdel db key
  | .getex db key _ _ _ | .incrBy db key _ | .incrByFloat db key _ | .append db key _ | .strlen db key
  | .hset db key _ _ | .hsetnx db key _ _ | .hget db key _ | .hdel db key _ | .hexists db key _
  | .hlen db key | .hgetall db key | .hkeys db key | .hvals db key | .hincrby db key _ _ | .hscan db key _ _ _
  | .listPop db key _ | .listLen db key | .listRange db key _ _ | .listIndex db key _ | .listTrim db key _ _
  | .listSet db key _ _ | .listRem db key _ _ | .listInsert db key _ _ _
  | .setMembers db key | .setCard db key | .setIsMember db key _ | .sscan db key _ _ _ | .spop db key
  | .zscore db key _ | .zcard db key | .zrange db key _ _ _ | .zincrby db key _ _ | .zrank db key _ _
  | .zpopmin db key | .zpopmax db key | .zscan db key _ _ _
  | .xlen db key | .xrange db key _ _ _ _ | .xdel db key _ | .xgroupCreate db key _ _ _ | .xgroupDestroy db key _
  | .xack db key _ _ | .xpendingSummary db key _ | .xpendingRange db key _ _ _ _ _ | .xclaim db key _ _ _ _ _ =>
    [(db, key)]
  | .hsetFields db key l | .hmset db key l | .xadd db key _ l => if l.isEmpty then [] else [(db, key)]
  | .hmget db key l | .listPush db key l _ | .setAdd db key l | .setRem db key l | .zrem db key l =>
    if l.isEmpty then [] else [(db, key)]
  | .zadd db key l => if l.isEmpty then [] else [(db, key)]
  | .zaddOpt db key opt l => if l.isEmpty || (opt.nx && opt.xx) || (opt.gt && opt.lt) then [] else [(db, key)]
  | .zrangeByScore db key min max _ _ _ | .zcount db key min max =>
    if (parseScoreBound (F := F) min).isNone || (parseScoreBound (F := F) max).isNone then [] else [(db, key)]
  | .xtrim db key maxlen => if maxlen < 0 then [] else [(db, key)]
  | .msetnx db l => if l.any fun p => (s.live now db p.1).isSome then [] else l.map fun p => (db, p.1)
  | .renameKey db src dst nx =>
    if src = dst ∨ s.live now db src = none ∨ (nx ∧ s.live now db dst ≠ none) then [] else [(db, dst)]
  | .restoreKey db key _ payload replace =>
    if (KvStore.parseDump (F := F) payload).toOption.isNone ∨ (s.live now db key ≠ none ∧ ¬replace) then []
    else [(db, key)]
  | .listRPopLPush db src dst =>
    (Field.list.at now s db src).elim [] fun l => (db, src) :: if l.isEmpty then [] else [(db, dst)]
  | .setInter db l => (s.sources now db l .inter).map fun k => (db, k)
  | .setUnion db l => (s.sources now db l .union).map fun k => (db, k)
  | .setDiff db l => (s.sources now db l .diff).map fun k => (db, k)
  | .setInterStore db dest l => storeAccessed now s db dest l .inter
  | .setUnionStore db dest l => storeAccessed now s db dest l .union
  | .setDiffStore db dest l => if l.isEmpty then [] else storeAccessed now s db dest l .diff
  | .xread db l ids _ | .xreadGroup db _ _ l ids _ => if l.length = ids.length then l.map fun k => (db, k) else []
  | _ => []

/-- The STORE forms do not touch their sources. -/
def StoreFresh (now : Int) (s : KvStore F) (db : Int) (dest : Bytes) (keys : List Bytes) (op : SetOp) : Prop :=
  if s.stopped now db keys op then s.sources now db keys op = [] else ∀ k ∈ s.sources now db keys op, k = dest

/-- The operation calls `touchEntry` on what it accesses, or leaves nothing of it. -/
def Fresh (env : Env) (s : KvStore F) : KvOp F α → Prop
  -- written without it, where there is no other type in the way
  | .set .. | .setex .. => False
  | .setOpt db key _ nx xx _ _ =>
    let s' := (KvStore.evictIfNeededLocked env s).2
    xx ∧ s'.live env.now db key = none ∨ nx ∧ s'.Other env.now db key .string
  | .getset db key _ | .incrBy db key _ => s.Other env.now db key .string
  | .hset db key _ _ | .hsetnx db key _ _ => s.Other env.now db key .hash
  | .hmset db key l => l = [] ∨ s.Other env.now db key .hash
  | .listPush db key l _ => l = [] ∨ s.Other env.now db key .list
  | .setAdd db key l => l = [] ∨ s.Other env.now db key .set
  | .zadd db key l => l = [] ∨ s.Other env.now db key .zset
  | .zincrby db key _ _ => s.Other env.now db key .zset
  | .loadFromString data => Failed (KvStore.loadFromString data env s).1
  -- read without it
  | .get db key => s.typeAt env.now db key ≠ some .string
  | .hget db key _ | .hexists db key _ | .hlen db key | .hgetall db key | .hkeys db key | .hvals db key
  | .hscan db key _ _ _ => s.typeAt env.now db key ≠ some .hash
  | .hmget db key l => l = [] ∨ s.typeAt env.now db key ≠ some .hash
  | .listLen db key | .listRange db key _ _ => s.typeAt env.now db key ≠ some .list
  | .setMembers db key | .setCard db key | .setIsMember db key _ | .sscan db key _ _ _ =>
    s.typeAt env.now db key ≠ some .set
  | .setDiff db l => s.sources env.now db l .diff = []
  | .setInterStore db dest l => StoreFresh env.now s db dest l .inter
  | .setUnionStore db dest l => StoreFresh env.now s db dest l .union
  | .setDiffStore db dest l => l = [] ∨ StoreFresh env.now s db dest l .diff
  | .zscore db key _ | .zcard db key | .zrange db key _ _ _ | .zrank db key _ _ | .zscan db key _ _ _ =>
    s.typeAt env.now db key ≠ some .zset
  | .zrangeByScore db key min max _ _ _ | .zcount db key min max =>
    (parseScoreBound (F := F) min).isNone ∨ (parseScoreBound (F := F) max).isNone ∨
      s.typeAt env.now db key ≠ some .zset
  | .xpendingSummary db key _ | .xpendingRange db key _ _ _ _ _ => s.typeAt env.now db key ≠ some .stream
  -- taken from without it, unless nothing is left
  | .hdel db key field => ∀ h ∈ Field.hash.at env.now s db key, (h.erase field).isEmpty
  | .listPop db key _ => ∀ l ∈ Field.list.at env.now s db key, l.length = 1
  | .listRPopLPush db src dst => ∀ l ∈ Field.list.at env.now s db src, l.length = 1 ∧ s.Other env.now db dst .list
  | .setRem db key l => l = [] ∨ ∀ a ∈ Field.sets.at env.now s db key, (KvStore.eraseMembers l a).2.isEmpty
  | .zrem db key l => l = [] ∨ ∀ z ∈ Field.zset.at env.now s db key, (l.foldl (·.erase ·) z).isEmpty
  -- with it, unless there is nothing to take or something is refused
  | .spop db key => ∀ a ∈ Field.sets.at env.now (KvStore.evictIfNeededLocked env s).2 db key, a.isEmpty = false
  | .zpopmin db key | .zpopmax db key =>
    ∀ z ∈ Field.zset.at env.now (KvStore.evictIfNeededLocked env s).2 db key, z.isEmpty = false
  | .incrByFloat db key _ => s.live env.now db key ≠ none ∧
      ∀ v ∈ Field.string.at env.now s db key, (Platform.strtod (F := F) (cstr v)).2 ≠ 0
  | .hincrby db key field _ => ∀ h ∈ Field.hash.at env.now (KvStore.evictIfNeededLocked env s).2 db key,
      (h[field]?).elim (some 0) parseIntegerValue ≠ none
  | .listSet db key index _ => ∀ l ∈ Field.list.at env.now s db key, listPos l index ≠ none
  | .listInsert db key before pivot value => ∀ l ∈ Field.list.at env.now s db key, insertAt before pivot value l ≠ none
  | .xadd db key id fields => fields = [] ∨ id = lit "*" ∨
      (KvStore.evictIfNeededLocked env s).2.Other env.now db key .stream
  | .xtrim db key maxlen => maxlen < 0 ∨ ∀ st ∈ Field.stream.at env.now s db key, maxlen < st.entries.length
  | .xgroupCreate db key group _ _ => ∀ st ∈ Field.stream.at env.now s db key, st.groups[group]? = none
  | .xgroupDestroy db key group | .xack db key group _ | .xclaim db key group _ _ _ _ =>
    ∀ st ∈ Field.stream.at env.now s db key, st.groups[group]? ≠ none
  | .xreadGroup db group _ l ids _ => l.length ≠ ids.length ∨
      ∀ key ∈ l, ∀ st ∈ Field.stream.at env.now s db key, st.groups[group]? ≠ none
  | _ => True

/-- A value the operation is for. -/
def takes (op : KvOp F α) (type : ObjType) : Bool := op.kind.all fun k => decide (type = k)

end KvOp

/-- How an operation leaves the access times. -/
def Refreshed (now : Int) (names : List (Int × Bytes)) (takes : ObjType → Bool) (s s' : KvStore F) : Prop :=
  ∀ db key e', s'.entry db key = some e' →
    if (db, key) ∈ names ∧ takes e'.type = true then e'.lruMs = now
    else ∃ e, s.entry db key = some e ∧ e.lruMs = e'.lruMs ∧ e.type = e'.type

/-! ## Lemmas -/

variable {now db : Int} {key : Bytes} {names names' : List (Int × Bytes)} {takes : ObjType → Bool}
  {s s' s'' : KvStore F} {env : Env}

namespace Refreshed

theorem refl (now : Int) (takes : ObjType → Bool) (s : KvStore F) : Refreshed now [] takes s s := by
  intro db key e' he
  rw [if_neg fun h => List.not_mem_nil h.1]
  exact ⟨e', he, rfl, rfl⟩

theorem of_entry (h : ∀ db key, s'.entry db key = s.entry db key ∨ s'.entry db key = none) :
    Refreshed now [] takes s s' := by
  intro db key e' he
  rw [if_neg fun h => List.not_mem_nil h.1]
  refine ⟨e', ?_, rfl, rfl⟩
  rcases h db key with heq | hnone
  · rw [← heq, he]
  · rw [hnone] at he
    cases he

theorem trans (h : Refreshed now names takes s s') (h' : Refreshed now names' takes s' s'') :
    Refreshed now (names ++ names') takes s s'' := by
  intro db key e'' he
  have hlast := h' db key e'' he
  by_cases hn' : (db, key) ∈ names' ∧ takes e''.type = true
  · rw [if_pos hn'] at hlast
    rw [if_pos ⟨List.mem_append_right _ hn'.1, hn'.2⟩]
    exact hlast
  · rw [if_neg hn'] at hlast
    obtain ⟨e', he', hlru, htype⟩ := hlast
    have hfirst := h db key e' he'
    rw [hlru, htype] at hfirst
    by_cases hn : (db, key) ∈ names ∧ takes e''.type = true
    · rw [if_pos hn] at hfirst
      rw [if_pos ⟨List.mem_append_left _ hn.1, hn.2⟩]
      exact hfirst
    · rw [if_neg hn] at hfirst
      rw [if_neg fun hboth => (List.mem_append.mp hboth.1).elim (fun hm => hn ⟨hm, hboth.2⟩)
        fun hm => hn' ⟨hm, hboth.2⟩]
      exact hfirst

theorem of_mem (h : Refreshed now names takes s s') (hmem : ∀ x, x ∈ names ↔ x ∈ names') :
    Refreshed now names' takes s s' := by
  intro db key e' he
  have hone := h db key e' he
  simp only [hmem] at hone
  exact hone

theorem congr (h : Refreshed now names takes s s') (he : ∀ db key, s''.entry db key = s'.entry db key) :
    Refreshed now names takes s s'' := by
  intro db key e' he'
  rw [he] at he'
  exact h db key e' he'

end Refreshed

namespace KvStore

theorem entry_onEntry (now db db' : Int) (key key' : Bytes) (body : Option (Item F) → Out (Item F) α)
    (s : KvStore F) : (s.onEntry now db key body).2.entry db' key' = if db' = db ∧ key' = key then
      (body (s.live now db key)).entry now ((s.entry db key).filter fun e => !e.expired now)
    else s.entry db' key' := by
  unfold onEntry
  rw [live_eq_entry]
  simp only [apply_ite (fun t : KvStore F => t.entry db' key'), entry_bumpWatchKey, entry_putEntry, ite_self]

theorem entry_onFound (now db db' : Int) (key key' : Bytes) (absent : α) (body : Item F → Out (Item F) α)
    (s : KvStore F) : (s.onFound now db key absent body).2.entry db' key' =
      (s.onEntry now db key fun o => o.elim { reply := absent } body).2.entry db' key' := by
  unfold onFound
  split
  next h =>
    have hnone : s.entry db key = none := by
      unfold entry
      rw [h]
      rfl
    rw [entry_onEntry, live_of_dbMap_none h, hnone]
    split
    next hk =>
      obtain ⟨rfl, rfl⟩ := hk
      exact hnone
    · rfl
  · rfl

/-- What the body of an operation on one key has to do. -/
theorem refreshed_onEntry {f : Option (Item F) → Out (Item F) α}
    (h : ∀ o', (f (s.live now db key)).act.apply (s.live now db key) = some o' →
      if takes o'.type = true then (f (s.live now db key)).touch = true
      else (f (s.live now db key)).touch = false ∧ ∃ o, s.live now db key = some o ∧ o.type = o'.type) :
    Refreshed now [(db, key)] takes s (s.onEntry now db key f).2 := by
  intro db' key' e' he
  rw [entry_onEntry] at he
  by_cases hk : db' = db ∧ key' = key
  · obtain ⟨rfl, rfl⟩ := hk
    rw [if_pos ⟨rfl, rfl⟩] at he
    unfold Out.entry at he
    have hlive := live_eq_entry now s db' key'
    rw [← hlive] at he
    obtain ⟨o', ho', rfl⟩ := Option.map_eq_some_iff.mp he
    have hone := h o' ho'
    by_cases ht : takes o'.type = true
    · rw [if_pos ht] at hone
      rw [if_pos ⟨List.mem_singleton_self _, ht⟩]
      exact if_pos hone
    · rw [if_neg ht] at hone
      rw [if_neg fun hb => ht hb.2]
      obtain ⟨htouch, o, hl, htype⟩ := hone
      rw [hl] at hlive
      obtain ⟨e, hold, rfl⟩ := Option.map_eq_some_iff.mp hlive.symm
      refine ⟨e, (Option.filter_eq_some_iff.mp hold).1, ?_, htype⟩
      simp only [htouch, hold]
      rfl
  · rw [if_neg hk] at he
    rw [if_neg fun hb => hk (by simpa using hb.1)]
    exact ⟨e', he, rfl, rfl⟩

/-- What stays is there before, and is not touched. -/
def Still (out : Out (Item F) α) (o : Option (Item F)) : Prop :=
  ∀ o', out.act.apply o = some o' → out.touch = false ∧ ∃ p, o = some p ∧ p.type = o'.type

theorem still_onEntry {f : Option (Item F) → Out (Item F) α} (h : Still (f (s.live now db key)) (s.live now db key)) :
    Refreshed now [] takes s (s.onEntry now db key f).2 := by
  have hnone : Refreshed now [(db, key)] (fun _ => false) s (s.onEntry now db key f).2 :=
    refreshed_onEntry fun o' ho' => by simpa using h o' ho'
  intro db' key' e' he
  have hone := hnone db' key' e' he
  rw [if_neg fun hb => by cases hb.2] at hone
  rw [if_neg fun hb => List.not_mem_nil hb.1]
  exact hone

theorem still_onFound {a : α} {f : Item F → Out (Item F) α}
    (h : ∀ o, s.live now db key = some o → Still (f o) (some o)) :
    Refreshed now [] takes s (s.onFound now db key a f).2 := by
  refine (still_onEntry (f := fun o => o.elim { reply := a } f) ?_).congr fun db' key' => entry_onFound ..
  cases hl : s.live now db key with
  | none =>
    intro o' ho'
    cases ho'
  | some o => exact h o hl

/-! ## Lemmas: operations on values of one type -/

variable {V : Type} {L : Field F V} {refuse absent : α} {f : Option V → Out V α}

/-- Whatever stays is touched. -/
def Touched (out : Out V α) (v : Option V) : Prop := ∀ v', out.act.apply v = some v' → out.touch = true

theorem at_of_live {o : Item F} (hl : s.live now db key = some o) (ht : o.type = L.type) :
    L.at now s db key = some (L.get o.toObj) := by
  unfold Field.at
  rw [hl]
  exact if_pos ht

theorem at_of_none (hl : s.live now db key = none) : L.at now s db key = none := by
  unfold Field.at
  rw [hl]
  rfl

theorem refreshed_onFieldOr
    (h : HasType L env.now db key s → Touched (f (L.at env.now s db key)) (L.at env.now s db key)) :
    Refreshed env.now [(db, key)] (fun t => decide (t = L.type)) s (StoreM.onFieldOr L db key refuse f env s).2 := by
  refine refreshed_onEntry fun o' ho' => ?_
  cases hl : s.live env.now db key with
  | none =>
    rw [hl] at ho'
    have hone := h fun o ho => by rw [hl] at ho; cases ho
    rw [at_of_none hl] at hone
    unfold liftBody Field.body at ho' ⊢
    simp only [Option.map_none] at ho' ⊢
    cases ha : (f none).act with
    | keep => simp [Out.map, ha, Act.map, Act.apply] at ho'
    | erase => simp [Out.map, ha, Act.map, Act.apply] at ho'
    | put v =>
      have htouch := hone v (by rw [ha]; rfl)
      have htype : o'.type = L.type := by
        simp only [Out.map, ha, Act.map, Act.apply, Option.some.injEq] at ho'
        rw [← ho']
        exact L.type_set ..
      rw [if_pos (decide_eq_true htype)]
      exact htouch
  | some o =>
    rw [hl] at ho'
    unfold liftBody at ho' ⊢
    simp only [Option.map_some] at ho' ⊢
    by_cases ht : o.type = L.type
    · have hone := h fun p hp => by rw [hl] at hp; cases hp; exact ht
      rw [at_of_live hl ht] at hone
      rw [Field.body_of_type ht] at ho' ⊢
      cases ha : (f (some (L.get o.toObj))).act with
      | keep =>
        have htouch := hone _ (by rw [ha]; rfl)
        simp only [Out.map, ha, Act.map, Act.apply, Option.some.injEq] at ho'
        rw [← ho', if_pos (decide_eq_true ht)]
        exact htouch
      | erase => simp [Out.map, ha, Act.map, Act.apply] at ho'
      | put v =>
        have htouch := hone v (by rw [ha]; rfl)
        have htype : o'.type = L.type := by
          simp only [Out.map, ha, Act.map, Act.apply, Option.some.injEq] at ho'
          rw [← ho']
          exact (L.type_set ..).trans ht
        rw [if_pos (decide_eq_true htype)]
        exact htouch
    · rw [Field.body_of_ne ht] at ho' ⊢
      simp only [Out.map, Act.map, Act.apply, Option.some.injEq] at ho'
      rw [← ho', if_neg (by simpa using ht)]
      exact ⟨rfl, o, rfl, rfl⟩

theorem refreshed_onField {f : Option V → Out V (Except Bytes α)}
    (h : ∀ v ∈ L.at env.now s db key, Touched (f (some v)) (some v)) (hnone : Touched (f none) none) :
    Refreshed env.now [(db, key)] (fun t => decide (t = L.type)) s (StoreM.onField L db key f env s).2 := by
  refine refreshed_onFieldOr fun _ => ?_
  cases hv : L.at env.now s db key with
  | none => exact hnone
  | some v => exact h v hv

theorem at_of_typeAt (h : s.typeAt now db key ≠ some L.type) : L.at now s db key = none := by
  unfold Field.at
  unfold typeAt at h
  cases hl : s.live now db key with
  | none => rfl
  | some o =>
    rw [hl] at h
    exact if_neg fun ht => h (congrArg some ht)

theorem at_of_other (h : s.Other now db key L.type) : L.at now s db key = none := by
  obtain ⟨t, ht, hne⟩ := h
  exact at_of_typeAt fun hsame => hne (Option.some.inj (ht.symm.trans hsame))

theorem live_of_other {type : ObjType} (h : s.Other now db key type) :
    ∃ o, s.live now db key = some o ∧ o.type ≠ type := by
  obtain ⟨t, ht, hne⟩ := h
  obtain ⟨o, ho, rfl⟩ := Option.map_eq_some_iff.mp ht
  exact ⟨o, ho, hne⟩

theorem refreshed_read {f : Option V → Out V (Except Bytes α)} (h : s.typeAt env.now db key ≠ some L.type)
    (hnone : (f none).act.apply none = none) :
    Refreshed env.now [(db, key)] (fun t => decide (t = L.type)) s (StoreM.onField L db key f env s).2 := by
  refine refreshed_onField (fun v hv => ?_) fun v' hv' => ?_
  · rw [at_of_typeAt h] at hv
    cases hv
  · rw [hnone] at hv'
    cases hv'

theorem refreshed_other (h : s.Other env.now db key L.type) :
    Refreshed env.now [(db, key)] (fun t => decide (t = L.type)) s (StoreM.onFieldOr L db key refuse f env s).2 := by
  obtain ⟨o, hl, hne⟩ := live_of_other h
  exact refreshed_onFieldOr fun ht => absurd (ht o hl) hne

theorem still_onFieldOr (h : ∀ v, (f v).act = .keep ∧ (f v).touch = false) :
    Refreshed env.now [] takes s (StoreM.onFieldOr L db key refuse f env s).2 := by
  refine still_onEntry ?_
  cases s.live env.now db key with
  | none =>
    intro o' ho'
    unfold liftBody Field.body Out.map at ho'
    simp only [Option.map_none, (h none).1] at ho'
    cases ho'
  | some o =>
    intro o' ho'
    unfold liftBody at ho' ⊢
    simp only [Option.map_some] at ho' ⊢
    by_cases ht : o.type = L.type
    · rw [Field.body_of_type ht] at ho' ⊢
      simp only [Out.map, (h _).1] at ho'
      cases ho'
      exact ⟨(h _).2, o, rfl, rfl⟩
    · rw [Field.body_of_ne ht] at ho' ⊢
      cases ho'
      exact ⟨rfl, o, rfl, rfl⟩

theorem still_other (h : s.Other env.now db key L.type) :
    Refreshed env.now [] takes s (StoreM.onFieldOr L db key refuse f env s).2 := by
  obtain ⟨o, hl, hne⟩ := live_of_other h
  refine still_onEntry ?_
  rw [hl]
  intro o' ho'
  unfold liftBody at ho' ⊢
  simp only [Option.map_some] at ho' ⊢
  rw [Field.body_of_ne hne] at ho' ⊢
  cases ho'
  exact ⟨rfl, o, rfl, rfl⟩

theorem typeAt_of_at {v : V} (hat : L.at now s db key = some v) : s.typeAt now db key = some L.type :=
  Decidable.byContradiction fun h => by rw [at_of_typeAt h] at hat; cases hat

theorem reply_of_at {v : V} {f : Option V → Out V (Except Bytes α)} (hat : L.at env.now s db key = some v) :
    (StoreM.onField L db key f env s).1 = (f (some v)).reply := by
  obtain ⟨o, hl, ht⟩ := Option.map_eq_some_iff.mp (typeAt_of_at hat)
  have htype : HasType L env.now db key s := fun o' ho' => by
    rw [hl] at ho'
    cases ho'
    exact ht
  rw [at_of_live hl ht, Option.some.injEq] at hat
  rw [onField_reply htype, hl, ← hat]
  rfl

theorem reply_of_at_none {f : Option V → Out V (Except Bytes α)} (hat : L.at env.now s db key = none) :
    (StoreM.onField L db key f env s).1 = .error wrongType ∨
      (StoreM.onField L db key f env s).1 = (f none).reply := by
  by_cases ht : HasType L env.now db key s
  · refine .inr ((onField_reply ht f).trans ?_)
    cases hl : s.live env.now db key with
    | none => rfl
    | some o =>
      rw [at_of_live hl (ht o hl)] at hat
      cases hat
  · exact .inl (onField_refused ht f)

/-- An operation that makes nothing, where there is no value of its type. -/
theorem still_of_at (hat : L.at env.now s db key = none) (hact : (f none).act = .keep) :
    Refreshed env.now [] takes s (StoreM.onFieldOr L db key refuse f env s).2 := by
  cases hl : s.live env.now db key with
  | none =>
    refine still_onEntry ?_
    rw [hl]
    intro o' ho'
    unfold liftBody Field.body Out.map at ho'
    simp only [Option.map_none, hact] at ho'
    cases ho'
  | some o =>
    refine still_other ⟨o.type, by unfold typeAt; rw [hl]; rfl, fun ht => ?_⟩
    rw [at_of_live hl ht] at hat
    cases hat

theorem entry_onFoundField (f : V → Out V α) (db' : Int) (key' : Bytes) :
    (StoreM.onFoundField L db key absent refuse f env s).2.entry db' key' =
      (StoreM.onFieldOr L db key refuse (fun v => v.elim { reply := absent } f) env s).2.entry db' key' := by
  unfold StoreM.onFoundField StoreM.onFoundObj StoreM.onFound StoreM.onFieldOr StoreM.onObj StoreM.onEntry
  rw [entry_onFound, entry_onEntry, entry_onEntry]
  cases s.live env.now db key with
  | none => rfl
  | some o => rfl

theorem refreshed_onFoundField {f : V → Out V α} (h : ∀ v ∈ L.at env.now s db key, Touched (f v) (some v)) :
    Refreshed env.now [(db, key)] (fun t => decide (t = L.type)) s
      (StoreM.onFoundField L db key absent refuse f env s).2 := by
  refine (refreshed_onFieldOr fun _ => ?_).congr (entry_onFoundField f)
  cases hv : L.at env.now s db key with
  | none => exact fun _ hv' => (by cases hv')
  | some v => exact h v hv

theorem still_onFoundField {f : V → Out V α} (h : ∀ v, (f v).act = .keep ∧ (f v).touch = false) :
    Refreshed env.now [] takes s (StoreM.onFoundField L db key absent refuse f env s).2 := by
  refine (still_onFieldOr fun v => ?_).congr (entry_onFoundField f)
  cases v with
  | none => exact ⟨rfl, rfl⟩
  | some v => exact h v

theorem still_found_of_at {f : V → Out V α} (hat : L.at env.now s db key = none) :
    Refreshed env.now [] takes s (StoreM.onFoundField L db key absent refuse f env s).2 :=
  (still_of_at hat rfl).congr (entry_onFoundField f)

theorem refreshed_evict (env : Env) (takes : ObjType → Bool) (s : KvStore F) :
    Refreshed env.now [] takes s (evictIfNeededLocked env s).2 := by
  obtain ⟨n, hn⟩ := rounds_evict env s
  exact .of_entry fun db key => (entry_of_rounds hn db key).imp id And.left

theorem refreshed_evict_bind {m : StoreM F α} (h : Refreshed env.now names takes (evictIfNeededLocked env s).2
    (m env (evictIfNeededLocked env s).2).2) :
    Refreshed env.now names takes s ((evictIfNeededLocked >>= fun _ => m) env s).2 :=
  (refreshed_evict env takes s).trans h

end KvStore

end Kv
