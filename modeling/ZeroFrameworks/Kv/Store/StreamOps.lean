import ZeroFrameworks.Kv.Store.Orderly
import ZeroFrameworks.Kv.Store.Streams

/-!
# What happens to one stream

The operations on streams, taken on one key.  XADD is two locked sections, `evict` and then `add`;
an XREAD or XREADGROUP over several keys is one `read` or `readGroup` for each of them.

`StreamAt db key s v` says that the key holds the stream `v` and has no deadline, or that it does not
exist.  Started there, an operation answers what its body answers on `v` and leaves what the body
leaves, so that a run on the store is a run on the one value (`streamAt_run`):

    StreamAt db key s v → op ≠ evict →
      (op.run db key env s).1 = (op.body env v).reply ∧
      StreamAt db key (op.run db key env s).2 ((op.body env v).act.apply v)
-/

namespace Kv

variable {F : Type} [Platform F] {α β : Type}

/-! ## Operations -/

inductive StreamOp where
  | evict
  | add (id : Bytes) (fields : List (Bytes × Bytes))
  | del (ids : List Bytes)
  | trim (maxlen : Int)
  | read (id : Bytes) (count : Int)
  | groupCreate (group id : Bytes) (mkstream : Bool)
  | groupDestroy (group : Bytes)
  | readGroup (group consumer id : Bytes) (count : Int)
  | ack (group : Bytes) (ids : List Bytes)
  | claim (group consumer : Bytes) (minIdleMs : Int) (ids : List Bytes) (force : Bool)

inductive StreamReply where
  | none
  | error (e : Bytes)
  | id (id : Bytes)
  | count (n : Int)
  | entries (l : List StreamEntry)

/-- The reply of an operation that can fail. -/
def StreamReply.of (f : α → StreamReply) : Except Bytes α → StreamReply
  | .error e => .error e
  | .ok a => f a

/-- One key of `xread`. -/
def xreadOne (db : Int) (key id : Bytes) (count : Int) : StoreM F (List StreamEntry) :=
  .onFoundField .stream db key [] [] fun st =>
    { touch := true
      reply := takeWhere (fun e => !(id != lit "0" && idLe e.id id)) count st.entries }

namespace StreamOp

/-- The store's operation on one key. -/
def run (db : Int) (key : Bytes) : StreamOp → StoreM F StreamReply
  | .evict => (fun _ => .none) <$> KvStore.evictIfNeededLocked
  | .add id fields => .of .id <$>
    if fields.isEmpty then pure (.error (lit "ERR wrong number of arguments for XADD"))
    else .withEnv fun env => .onField .stream db key (xaddBody env.now id fields)
  | .del ids => .of .count <$> KvStore.xdel db key ids
  | .trim maxlen => .of .count <$> KvStore.xtrim db key maxlen
  | .read id count => .entries <$> xreadOne db key id count
  | .groupCreate group id mkstream => .of (fun _ => .none) <$> KvStore.xgroupCreate db key group id mkstream
  | .groupDestroy group => .of (fun _ => .none) <$> KvStore.xgroupDestroy db key group
  | .readGroup group consumer id count =>
    .of .entries <$> KvStore.xreadGroupOne db group consumer count key id
  | .ack group ids => .of .count <$> KvStore.xack db key group ids
  | .claim group consumer minIdleMs ids force =>
    .of .entries <$> KvStore.xclaim db key group consumer minIdleMs ids force

def runAll (db : Int) (key : Bytes) (s : KvStore F) (calls : List (Env × StreamOp)) : KvStore F :=
  calls.foldl (fun s c => (c.2.run db key c.1 s).2) s

theorem xadd_eq (db : Int) (key id : Bytes) (fields : List (Bytes × Bytes)) (h : fields ≠ [])
    (env : Env) (s : KvStore F) :
    StreamReply.of .id (KvStore.xadd db key id fields env s).1 =
        ((StreamOp.add id fields).run db key env ((StreamOp.evict.run db key env s).2)).1 ∧
      (KvStore.xadd db key id fields env s).2 =
        ((StreamOp.add id fields).run db key env ((StreamOp.evict.run db key env s).2)).2 := by
  have hne : fields.isEmpty = false := by simpa using h
  simp only [KvStore.xadd, run, hne, StoreM.map_apply]
  exact ⟨rfl, rfl⟩

/-! ## The operations on the value -/

/-- What an operation makes of the stream and what it answers; `evict` may also take it away. -/
def step (env : Env) : StreamOp → Option StreamObj → Option StreamObj × StreamReply
  | .evict, v => (v, .none)
  | .add id fields, v =>
    if fields.isEmpty then (v, .error (lit "ERR wrong number of arguments for XADD"))
    else ((xaddBody env.now id fields v).act.apply v, .of .id (xaddBody env.now id fields v).reply)
  | .del _, none => (none, .count 0)
  | .del ids, some st =>
    let r := removeIds ids st.entries
    (if r.1.isEmpty then none else some { st with entries := r.1 }, .count r.2)
  | .trim maxlen, v =>
    if maxlen < 0 then (v, .error (lit "ERR syntax error"))
    else
      match v with
      | none => (none, .count 0)
      | some st =>
        if (st.entries.length : Int) ≤ maxlen then (some st, .count 0)
        else
          let remove := (st.entries.length : Int) - maxlen
          (some { st with entries := st.entries.drop remove.toNat }, .count remove)
  | .read id count, v =>
    let after (st : StreamObj) :=
      takeWhere (fun e => !(id != lit "0" && idLe e.id id)) count st.entries
    (v, .entries (v.elim [] after))
  | .groupCreate group id mkstream, v =>
    if v.isNone && !mkstream then (v, .error noSuchKey)
    else
      let st := v.getD {}
      if st.groups.contains group then
        (v, .error (lit "BUSYGROUP Consumer Group name already exists"))
      else
        let lastId := if id = lit "$" then (st.entries.getLast?.map (·.id)).getD (lit "0-0") else id
        (some { st with groups := st.groups.insert group { lastId := lastId } }, .none)
  | .groupDestroy _, none => (none, .error noSuchKey)
  | .groupDestroy group, some st =>
    if st.groups.contains group then (some { st with groups := st.groups.erase group }, .none)
    else (some st, .error (lit "ERR no such group"))
  | .readGroup _ _ _ _, none => (none, .entries [])
  | .readGroup group consumer id count, some st =>
    (Kv.readGroup env.now group consumer id count st).elim (some st, .error noGroup)
      fun r => (some r.1, .entries r.2)
  | .ack _ _, none => (none, .error noSuchKey)
  | .ack group ids, some st =>
    (st.groups[group]?).elim (some st, .error noGroup) fun gs =>
      let gs' := { gs with consumers := gs.consumers.map fun _ c => (c.ack ids).1 }
      (some { st with groups := st.groups.insert group gs' },
        .count (gs.consumers.toList.map fun c => (c.2.ack ids).2).sum)
  | .claim _ _ _ _ _, none => (none, .error noSuchKey)
  | .claim group consumer minIdleMs ids force, some st =>
    (st.groups[group]?).elim (some st, .error noGroup) fun gs =>
      let consumers := gs.consumers.insert consumer (gs.consumers[consumer]?.getD {})
      let r := claimAll env consumer minIdleMs force st.entries ids consumers
      (some { st with groups := st.groups.insert group { gs with consumers := r.1 } }, .entries r.2)

theorem step_addFields (env : Env) (id : Bytes) (fields : List (Bytes × Bytes)) (v : Option StreamObj) :
    (StreamOp.add id fields).step env v =
      if fields.isEmpty then (v, .error (lit "ERR wrong number of arguments for XADD"))
      else ((xaddBody env.now id fields v).act.apply v, .of .id (xaddBody env.now id fields v).reply) := by
  simp only [step]

end StreamOp

/-- The key holds the stream `v` and has no deadline, or it does not exist. -/
def StreamAt (db : Int) (key : Bytes) (s : KvStore F) (v : Option StreamObj) : Prop :=
  match v with
  | none => s.item db key = none
  | some st => ∃ o, s.item db key = some o ∧ o.type = .stream ∧ Field.stream.get o.toObj = st ∧
      o.expireAtMs ≤ 0

/-! ## Lemmas -/

namespace StreamAt

variable {db : Int} {key : Bytes} {s : KvStore F} {v : Option StreamObj}

theorem live (h : StreamAt db key s v) (now : Int) :
    (s.live now db key).map (fun o => Field.stream.get o.toObj) = v := by
  cases v with
  | none => simp [KvStore.live, show s.item db key = none from h]
  | some st =>
    obtain ⟨o, ho, -, hst, hd⟩ := h
    have hexp : o.expired now = false := by
      unfold Item.expired
      rw [decide_eq_false (by omega : ¬0 < o.expireAtMs), Bool.false_and]
    simp [KvStore.live, ho, hexp, hst]

theorem hasType (h : StreamAt db key s v) (now : Int) :
    HasType (Field.stream : Field F _) now db key s := by
  intro o hl
  have ho := KvStore.item_of_live hl
  cases v with
  | none => simp [show s.item db key = none from h] at ho
  | some st =>
    obtain ⟨o', ho', ht, -⟩ := h
    rw [ho'] at ho
    cases ho
    exact ht

/-- What becomes of the entry, becomes of the value. -/
theorem of_item (h : StreamAt db key s v) {s' : KvStore F} (env : Env) (refuse : α)
    {f : Option StreamObj → Out StreamObj α}
    (hs : s'.item db key =
      (liftBody (Field.stream.body refuse f) (s.live env.now db key)).act.apply (s.live env.now db key)) :
    StreamAt db key s' ((f v).act.apply v) := by
  have hlive := h.live env.now
  have htype := h.hasType env.now
  cases hl : s.live env.now db key with
  | none =>
    rw [hl] at hs hlive
    obtain rfl : none = v := hlive
    unfold liftBody Field.body at hs
    cases ha : (f none).act with
    | keep =>
      simp only [Option.map_none, Out.map, ha, Act.map, Act.apply] at hs
      exact hs
    | put st =>
      simp only [Option.map_none, Out.map, ha, Act.map, Act.apply] at hs
      exact ⟨_, hs, rfl, rfl, Int.le_refl 0⟩
    | erase =>
      simp only [Option.map_none, Out.map, ha, Act.map, Act.apply] at hs
      exact hs
  | some o =>
    rw [hl] at hs hlive
    obtain rfl : some (Field.stream.get o.toObj) = v := hlive
    obtain ⟨o', ho', ht, hst, hd⟩ := h
    rw [KvStore.item_of_live hl] at ho'
    cases ho'
    unfold liftBody at hs
    simp only [Option.map_some] at hs
    rw [Field.body_of_type ht] at hs
    cases ha : (f (some (Field.stream.get o.toObj))).act with
    | keep =>
      simp only [Out.map, ha, Act.map, Act.apply] at hs
      exact ⟨o, hs, ht, rfl, hd⟩
    | put st =>
      simp only [Out.map, ha, Act.map, Act.apply] at hs
      exact ⟨_, hs, ht, rfl, hd⟩
    | erase =>
      simp only [Out.map, ha, Act.map, Act.apply] at hs
      exact hs

theorem onFieldOr (h : StreamAt db key s v) (env : Env) (refuse : α) (f : Option StreamObj → Out StreamObj α) :
    (StoreM.onFieldOr .stream db key refuse f env s).1 = (f v).reply ∧
      StreamAt db key (StoreM.onFieldOr .stream db key refuse f env s).2 ((f v).act.apply v) := by
  constructor
  · rw [onFieldOr_reply (h.hasType env.now), h.live]
  · refine h.of_item env refuse ?_
    unfold StoreM.onFieldOr StoreM.onObj StoreM.onEntry
    rw [KvStore.item_onEntry, if_pos ⟨rfl, rfl⟩]

/-- So does one in a database that is only looked up. -/
theorem onFoundField (h : StreamAt db key s v) (env : Env) (absent refuse : α)
    (f : StreamObj → Out StreamObj α) :
    (StoreM.onFoundField .stream db key absent refuse f env s).1 = v.elim absent (fun st => (f st).reply) ∧
      StreamAt db key (StoreM.onFoundField .stream db key absent refuse f env s).2
        (v.bind fun st => (f st).act.apply (some st)) := by
  unfold StoreM.onFoundField StoreM.onFoundObj StoreM.onFound
  constructor
  · have hlive := h.live env.now
    have htype := h.hasType env.now
    rw [KvStore.onFound_reply]
    cases hl : s.live env.now db key with
    | none =>
      rw [hl] at hlive
      rw [← hlive]
      rfl
    | some o =>
      rw [hl] at hlive
      rw [← hlive]
      simp only [Option.elim_some, Option.map_some]
      rw [Field.body_of_type (htype o hl)]
      rfl
  · have hvalue : (v.elim { reply := absent } f).act.apply v =
        v.bind fun st => (f st).act.apply (some st) := by
      cases v <;> rfl
    rw [← hvalue]
    refine h.of_item env refuse (f := fun v => v.elim { reply := absent } f) ?_
    rw [KvStore.item_onFound, if_pos ⟨rfl, rfl⟩]
    cases s.live env.now db key <;> rfl

end StreamAt

theorem item_evictLoop (env : Env) (rounds : Nat) (s : KvStore F) (db : Int) (key : Bytes) :
    (KvStore.evictLoop env rounds s).item db key = s.item db key ∨
      (KvStore.evictLoop env rounds s).item db key = none := by
  induction rounds generalizing s with
  | zero => exact .inl rfl
  | succ rounds ih =>
    unfold KvStore.evictLoop
    split
    · exact .inl rfl
    · split
      · exact .inl rfl
      next c _ =>
        have hevict := KvStore.item_evict s c.db db c.key key
        rcases ih ((s.putEntry c.db c.key none).bumpWatchKey c.db c.key) with h | h
        · rw [h, hevict]
          split
          · exact .inr rfl
          · exact .inl rfl
        · exact .inr h

theorem StreamAt.evict {db : Int} {key : Bytes} {s : KvStore F} {v : Option StreamObj}
    (h : StreamAt db key s v) (env : Env) :
    StreamAt db key (KvStore.evictIfNeededLocked env s).2 v ∨
      StreamAt db key (KvStore.evictIfNeededLocked env s).2 none := by
  unfold KvStore.evictIfNeededLocked
  simp only
  split
  · exact .inl h
  · rcases item_evictLoop env (s.unexpired env).length s db key with hi | hi
    · left
      cases v with
      | none => exact hi.trans h
      | some st =>
        obtain ⟨o, ho, hrest⟩ := h
        exact ⟨o, hi.trans ho, hrest⟩
    · exact .inr hi

/-- Run on the store, the computation takes the value to `r.1` and answers `r.2`. -/
def Takes (db : Int) (key : Bytes) (m : StoreM F StreamReply) (env : Env) (s : KvStore F)
    (r : Option StreamObj × StreamReply) : Prop :=
  (m env s).1 = r.2 ∧ StreamAt db key (m env s).2 r.1

section takes

variable {db : Int} {key : Bytes} {s : KvStore F} {v : Option StreamObj} {r : Option StreamObj × StreamReply}

theorem takes_onFieldOr (h : StreamAt db key s v) (env : Env) (g : α → StreamReply) (refuse : α)
    (f : Option StreamObj → Out StreamObj α)
    (hr : ((f v).act.apply v, g (f v).reply) = r) :
    Takes db key (g <$> StoreM.onFieldOr .stream db key refuse f) env s r := by
  obtain ⟨hreply, hstream⟩ := h.onFieldOr env refuse f
  rw [← hr]
  exact ⟨congrArg g hreply, hstream⟩

theorem takes_onFoundField (h : StreamAt db key s v) (env : Env) (g : α → StreamReply)
    (absent refuse : α) (f : StreamObj → Out StreamObj α)
    (hr : (v.bind fun st => (f st).act.apply (some st), g (v.elim absent fun st => (f st).reply)) = r) :
    Takes db key (g <$> StoreM.onFoundField .stream db key absent refuse f) env s r := by
  obtain ⟨hreply, hstream⟩ := h.onFoundField env absent refuse f
  rw [← hr]
  exact ⟨congrArg g hreply, hstream⟩

theorem takes_withEnv {f : Env → StoreM F α} {env : Env} {g : α → StreamReply} (h : Takes db key (g <$> f env) env s r) :
    Takes db key (g <$> StoreM.withEnv f) env s r := h

theorem takes_pure (h : StreamAt db key s v) (env : Env) (g : α → StreamReply) (a : α) :
    Takes db key (g <$> (pure a : StoreM F α)) env s (v, g a) := ⟨rfl, h⟩

theorem takes_add (h : StreamAt db key s v) (env : Env) (id : Bytes) (fields : List (Bytes × Bytes)) :
    Takes db key ((StreamOp.add id fields).run db key) env s ((StreamOp.add id fields).step env v) := by
  rw [StreamOp.step_addFields]
  simp only [StreamOp.run]
  by_cases hf : fields.isEmpty
  · rw [if_pos hf, if_pos hf]
    exact takes_pure h env _ _
  · rw [if_neg hf, if_neg hf]
    exact takes_withEnv (takes_onFieldOr h env _ _ _ rfl)

theorem takes_del (h : StreamAt db key s v) (env : Env) (ids : List Bytes) :
    Takes db key ((StreamOp.del ids).run db key) env s ((StreamOp.del ids).step env v) := by
  refine takes_onFieldOr h env _ _ _ ?_
  cases v with
  | none => rfl
  | some st =>
    simp only [StreamOp.step]
    split <;> rfl

theorem takes_trim (h : StreamAt db key s v) (env : Env) (maxlen : Int) :
    Takes db key ((StreamOp.trim maxlen).run db key) env s ((StreamOp.trim maxlen).step env v) := by
  simp only [StreamOp.run, StreamOp.step, KvStore.xtrim]
  by_cases hneg : maxlen < 0
  · rw [if_pos hneg, if_pos hneg]
    exact takes_pure h env _ _
  · rw [if_neg hneg, if_neg hneg]
    refine takes_onFieldOr h env _ _ _ ?_
    cases v with
    | none => rfl
    | some st =>
      simp only
      split <;> rfl

theorem takes_read (h : StreamAt db key s v) (env : Env) (id : Bytes) (count : Int) :
    Takes db key ((StreamOp.read id count).run db key) env s ((StreamOp.read id count).step env v) := by
  refine takes_onFoundField h env _ _ _ _ ?_
  cases v <;> rfl

theorem takes_groupCreate (h : StreamAt db key s v) (env : Env) (group id : Bytes) (mkstream : Bool) :
    Takes db key ((StreamOp.groupCreate group id mkstream).run db key) env s
      ((StreamOp.groupCreate group id mkstream).step env v) := by
  refine takes_onFieldOr h env _ _ _ ?_
  simp only [StreamOp.step]
  split
  · rfl
  · split <;> rfl

theorem takes_groupDestroy (h : StreamAt db key s v) (env : Env) (group : Bytes) :
    Takes db key ((StreamOp.groupDestroy group).run db key) env s
      ((StreamOp.groupDestroy group).step env v) := by
  refine takes_onFieldOr h env _ _ _ ?_
  cases v with
  | none => rfl
  | some st =>
    simp only [StreamOp.step]
    split <;> rfl

theorem takes_readGroup (h : StreamAt db key s v) (env : Env) (group consumer id : Bytes) (count : Int) :
    Takes db key ((StreamOp.readGroup group consumer id count).run db key) env s
      ((StreamOp.readGroup group consumer id count).step env v) := by
  refine takes_withEnv (takes_onFoundField h env _ _ _ _ ?_)
  cases v with
  | none => rfl
  | some st =>
    simp only [StreamOp.step, Option.bind_some, Option.elim_some]
    cases Kv.readGroup env.now group consumer id count st <;> rfl

theorem takes_ack (h : StreamAt db key s v) (env : Env) (group : Bytes) (ids : List Bytes) :
    Takes db key ((StreamOp.ack group ids).run db key) env s ((StreamOp.ack group ids).step env v) := by
  refine takes_onFieldOr h env _ _ _ ?_
  cases v with
  | none => rfl
  | some st =>
    simp only [StreamOp.step]
    cases st.groups[group]? <;> rfl

theorem takes_claim (h : StreamAt db key s v) (env : Env) (group consumer : Bytes) (minIdleMs : Int)
    (ids : List Bytes) (force : Bool) :
    Takes db key ((StreamOp.claim group consumer minIdleMs ids force).run db key) env s
      ((StreamOp.claim group consumer minIdleMs ids force).step env v) := by
  refine takes_withEnv (takes_onFieldOr h env _ _ _ ?_)
  cases v with
  | none => rfl
  | some st =>
    simp only [StreamOp.step]
    cases st.groups[group]? <;> rfl

end takes

/-! ## Top theorem -/

/-- **An operation of the store is its step on the value.** -/
theorem streamAt_run {db : Int} {key : Bytes} {s : KvStore F} {v : Option StreamObj}
    (h : StreamAt db key s v) (op : StreamOp) (env : Env) :
    Takes db key (op.run db key) env s (op.step env v) ∨
      op = .evict ∧ Takes db key (op.run db key) env s (none, .none) := by
  cases op with
  | evict =>
    rcases h.evict env with hkept | hgone
    · exact .inl ⟨rfl, hkept⟩
    · exact .inr ⟨rfl, rfl, hgone⟩
  | add id fields => exact .inl (takes_add h env id fields)
  | del ids => exact .inl (takes_del h env ids)
  | trim maxlen => exact .inl (takes_trim h env maxlen)
  | read id count => exact .inl (takes_read h env id count)
  | groupCreate group id mkstream => exact .inl (takes_groupCreate h env group id mkstream)
  | groupDestroy group => exact .inl (takes_groupDestroy h env group)
  | readGroup group consumer id count => exact .inl (takes_readGroup h env group consumer id count)
  | ack group ids => exact .inl (takes_ack h env group ids)
  | claim group consumer minIdleMs ids force =>
    exact .inl (takes_claim h env group consumer minIdleMs ids force)

end Kv
