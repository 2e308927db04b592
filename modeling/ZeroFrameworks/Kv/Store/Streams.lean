import ZeroFrameworks.Kv.Store.Keys

/-!
# Stream operations of the store

`parseStreamIdToken` compares the end pointer of its first `strtoull` with a position in the
token.  The pointer is into the temporary substring, so the comparison fails for every token with
a dash, and `*` is the only id that parses (`parseStreamIdToken_eq`).

`xadd` makes the entry before it looks at the id: a refused id leaves an empty stream under a key
that did not exist.
-/

namespace Kv

variable {F : Type} [Platform F]

/-! ## Stream ids -/

structure StreamIdParts where
  ms : Nat := 0
  seq : Nat := 0
  autoId : Bool := false

/-- The two strings `parseStreamIdToken` points into. -/
inductive Buffer where
  | token | substr
  deriving DecidableEq

def parseStreamIdToken (s : Bytes) : Option StreamIdParts :=
  if s = lit "*" then some { autoId := true }
  else
    match s.findIdx? (· == 45) with
    | none => none
    | some dash =>
      let ms := strtoull (s.take dash)
      if (Buffer.substr, ms.2) ≠ (Buffer.token, dash) then none
      else
        let seq := strtoull (s.drop (dash + 1))
        if seq.2 ≠ (cstr (s.drop (dash + 1))).length then none
        else some { ms := ms.1, seq := seq.1 }

def compareStreamId (a b : StreamIdParts) : Ordering :=
  if a.ms ≠ b.ms then (if a.ms < b.ms then .lt else .gt)
  else if a.seq ≠ b.seq then (if a.seq < b.seq then .lt else .gt)
  else .eq

def formatStreamId (ms seq : Nat) : Bytes := printNat ms ++ lit "-" ++ printNat seq

/-- The id of an entry as the range loops read it: zero where it does not parse. -/
def entryId (e : StreamEntry) : StreamIdParts := (parseStreamIdToken e.id).getD {}

/-- The items the loops keep, up to a positive `count` of them. -/
def takeWhere (p : StreamEntry → Bool) (count : Int) (l : List StreamEntry) : List StreamEntry :=
  if 0 < count then (l.filter p).take count.toNat else l.filter p

/-- `a <= b` of two `std::string`s. -/
def idLe (a b : Bytes) : Bool := (compare a b).isLE

/-! ## Algorithms on one stream -/

/-- The fields of an entry; a later value wins. -/
def fieldMap (fields : List (Bytes × Bytes)) : BMap Bytes :=
  fields.foldl (fun m f => m.insert f.1 f.2) ∅

/-- A new entry at the end, with its id as the last one. -/
def StreamObj.push (st : StreamObj) (ms seq : Nat) (fields : List (Bytes × Bytes)) : StreamObj :=
  { st with
    entries := st.entries ++ [⟨formatStreamId ms seq, fieldMap fields⟩]
    lastMs := ms
    lastSeq := seq }

/-- The body of `xadd`. -/
def xaddBody (now : Int) (id : Bytes) (fields : List (Bytes × Bytes)) (v : Option StreamObj) :
    Out StreamObj (Except Bytes Bytes) :=
  -- the entry exists from here on, whatever is refused below
  let made : Act StreamObj := if v.isNone then .put {} else .keep
  let st := v.getD {}
  match parseStreamIdToken id with
  | none => { act := made, reply := .error (lit "ERR invalid stream ID") }
  | some req =>
    if req.autoId then
      let ms := (now % 2 ^ 64).toNat
      let last := if st.lastMs < ms then (ms, 0) else (st.lastMs, (st.lastSeq + 1) % 2 ^ 64)
      { act := .put (st.push last.1 last.2 fields), touch := true, bump := true,
        reply := .ok (formatStreamId last.1 last.2) }
    else if st.entries.getLast?.any fun e => compareStreamId req (entryId e) != .gt then
      { act := made, reply := .error
          (lit "ERR The ID specified in XADD is equal or smaller than the target stream top item") }
    else
      { act := .put (st.push req.ms req.seq fields), touch := true, bump := true,
        reply := .ok (formatStreamId req.ms req.seq) }

/-- Remove the first entry with each id, and count them. -/
def removeIds (ids : List Bytes) (entries : List StreamEntry) : List StreamEntry × Int :=
  ids.foldl (fun a id =>
    if a.1.any (·.id == id) then (a.1.eraseP (·.id == id), a.2 + 1) else a) (entries, 0)

/-- Acknowledge ids for one consumer, and count them. -/
def StreamConsumerState.ack (ids : List Bytes) (c : StreamConsumerState) :
    StreamConsumerState × Int :=
  ids.foldl (fun a id =>
    if id ∈ a.1.pending then
      ({ a.1 with pending := a.1.pending.erase id, pendingMeta := a.1.pendingMeta.erase id }, a.2 + 1)
    else a) (c, 0)

/-- Deliver the picked entries to a consumer. -/
def StreamConsumerState.deliver (now : Int) (picked : List StreamEntry) (c : StreamConsumerState) :
    StreamConsumerState :=
  picked.foldl (fun c item =>
    { lastId := item.id
      pending := c.pending ++ [item.id]
      pendingMeta := c.pendingMeta.insert item.id { deliveryMs := now, deliveryCount := 1 } }) c

/-- One stream of `xreadGroup`; `none` when the group does not exist. -/
def readGroup (now : Int) (group consumer id : Bytes) (count : Int) (st : StreamObj) :
    Option (StreamObj × List StreamEntry) :=
  st.groups[group]?.map fun gs =>
    let cs := gs.consumers[consumer]?.getD {}
    let start := if id ≠ lit ">" ∧ id ≠ [] then id
      else if cs.lastId = [] then gs.lastId else cs.lastId
    let picked := takeWhere (fun item => !idLe item.id start) count st.entries
    let gs' := { gs with consumers := gs.consumers.insert consumer (cs.deliver now picked) }
    ({ st with groups := st.groups.insert group gs' }, picked)

/-- Milliseconds since an id was delivered to a consumer; `0` where nothing is recorded. -/
def StreamConsumerState.idle (now : Int) (id : Bytes) (c : StreamConsumerState) : Int :=
  (c.pendingMeta[id]?.map fun m => now - m.deliveryMs).getD 0

/-- One id of `xclaim`: the first consumer met that has it pending for long enough gives it up. -/
def claimOne (env : Env) (consumer : Bytes) (minIdleMs : Int) (force : Bool)
    (consumers : BMap StreamConsumerState) (id : Bytes) : Option (BMap StreamConsumerState) :=
  let holder := (env.order consumers.keys).find? fun name => (consumers[name]?).any fun c =>
    decide (id ∈ c.pending) && (force || decide (minIdleMs ≤ c.idle env.now id))
  holder.bind fun name => consumers[name]?.map fun c =>
    let prev := (c.pendingMeta[id]?.map fun m => m.deliveryCount).getD 0
    let rest := consumers.insert name
      { c with pending := c.pending.erase id, pendingMeta := c.pendingMeta.erase id }
    let target := rest[consumer]?.getD {}
    let claim : StreamPendingMeta := { deliveryMs := env.now, deliveryCount := prev + 1 }
    rest.insert consumer
      { target with
        pending := target.pending ++ [id]
        pendingMeta := target.pendingMeta.insert id claim }

/-- The id loop of `xclaim`. -/
def claimAll (env : Env) (consumer : Bytes) (minIdleMs : Int) (force : Bool)
    (entries : List StreamEntry) :
    List Bytes → BMap StreamConsumerState → BMap StreamConsumerState × List StreamEntry
  | [], consumers => (consumers, [])
  | id :: ids, consumers =>
    match claimOne env consumer minIdleMs force consumers id with
    | none => claimAll env consumer minIdleMs force entries ids consumers
    | some next =>
      let r := claimAll env consumer minIdleMs force entries ids next
      (r.1, (entries.find? (·.id == id)).toList ++ r.2)

structure XPendingSummary where
  count : Int := 0
  minId : Bytes := []
  maxId : Bytes := []
  consumers : List (Bytes × Int) := []

structure XPendingDetail where
  id : Bytes
  consumer : Bytes
  idleMs : Int := 0
  deliveryCount : Int := 0

def pendingSummary (consumers : BMap StreamConsumerState) : XPendingSummary :=
  let ids := consumers.toList.flatMap fun c => c.2.pending
  { count := ids.length
    minId := ids.foldl (fun m id => if m.isEmpty || (compare id m).isLT then id else m) []
    maxId := ids.foldl (fun m id => if m.isEmpty || (compare m id).isLT then id else m) []
    consumers := (consumers.toList.filter fun c => !c.2.pending.isEmpty).map
      fun c => (c.1, (c.2.pending.length : Int)) }

def pendingRange (env : Env) (start stop : Bytes) (count : Int) (only : Bytes)
    (consumers : BMap StreamConsumerState) : List XPendingDetail :=
  let names := (env.order consumers.keys).filter fun name => only.isEmpty || name == only
  let all := names.flatMap fun name =>
    let c := consumers[name]?.getD {}
    (c.pending.filter fun id => !(!start.isEmpty && (compare id start).isLT) &&
        !(!stop.isEmpty && stop != lit "+" && (compare stop id).isLT)).map fun id =>
      { id := id, consumer := name, idleMs := c.idle env.now id,
        deliveryCount := (c.pendingMeta[id]?.map fun m => m.deliveryCount).getD 0 }
  let sorted := all.mergeSort fun a b => idLe a.id b.id
  if 0 ≤ count then sorted.take count.toNat else sorted

def noSuchKey : Bytes := lit "ERR no such key"

def noGroup : Bytes := lit "NOGROUP No such consumer group"

namespace KvStore

/-! ## Operations -/

def xadd (db : Int) (key id : Bytes) (fields : List (Bytes × Bytes)) :
    StoreM F (Except Bytes Bytes) :=
  if fields.isEmpty then pure (.error (lit "ERR wrong number of arguments for XADD"))
  else do
    evictIfNeededLocked
    .withEnv fun env => .onField .stream db key (xaddBody env.now id fields)

/-- `xlen`; `none` is `found == false`. -/
def xlen (db : Int) (key : Bytes) : StoreM F (Except Bytes (Option Int)) :=
  .onField .stream db key fun v =>
    { touch := v.isSome, reply := .ok (v.map fun st => (st.entries.length : Int)) }

/-- The entries `xrange` returns; the bounds come in the caller's order. -/
def rangeOf (start stop : Bytes) (count : Int) (reverse : Bool) (st : StreamObj) :
    List StreamEntry :=
  let lowest := lit "0-0"
  let highest := lit "18446744073709551615-18446744073709551615"
  match parseStreamIdToken (if start = lit "-" then lowest else start),
      parseStreamIdToken (if stop = lit "+" then highest else stop) with
  | some a, some b =>
    if reverse then
      takeWhere (fun e => !(compareStreamId (entryId e) a == .gt || compareStreamId (entryId e) b == .lt))
        count st.entries.reverse
    else
      takeWhere (fun e => !(compareStreamId (entryId e) a == .lt || compareStreamId (entryId e) b == .gt))
        count st.entries
  | _, _ => []

def xrange (db : Int) (key start stop : Bytes) (count : Int) (reverse : Bool) :
    StoreM F (Except Bytes (List StreamEntry)) :=
  .onField .stream db key fun v =>
    { touch := v.isSome, reply := .ok ((v.map (rangeOf start stop count reverse)).getD []) }

def xdel (db : Int) (key : Bytes) (ids : List Bytes) : StoreM F (Except Bytes Int) :=
  .onField .stream db key fun v =>
    match v with
    | none => { reply := .ok 0 }
    | some st =>
      let r := removeIds ids st.entries
      if r.1.isEmpty then { act := .erase, bump := true, reply := .ok r.2 }
      else { act := .put { st with entries := r.1 }, touch := true, bump := true, reply := .ok r.2 }

/-- The key loop of `xread`. -/
def xreadLoop (db : Int) (count : Int) :
    List (Bytes × Bytes) → StoreM F (List (Bytes × List StreamEntry))
  | [] => pure []
  | (key, id) :: rest => do
    let picked ← .onFoundField .stream db key [] [] fun st =>
      { touch := true
        reply := takeWhere (fun e => !(id != lit "0" && idLe e.id id)) count st.entries }
    let out ← xreadLoop db count rest
    pure (if picked.isEmpty then out else (key, picked) :: out)

def xread (db : Int) (keys ids : List Bytes) (count : Int) :
    StoreM F (Except Bytes (List (Bytes × List StreamEntry))) :=
  if keys.length ≠ ids.length ∨ keys.isEmpty then pure (.error (lit "ERR syntax error"))
  else .ok <$> xreadLoop db count (keys.zip ids)

def xgroupCreate (db : Int) (key group id : Bytes) (mkstream : Bool) :
    StoreM F (Except Bytes Unit) :=
  .onField .stream db key fun v =>
    if v.isNone && !mkstream then { reply := .error noSuchKey }
    else
      let st := v.getD {}
      if st.groups.contains group then
        { reply := .error (lit "BUSYGROUP Consumer Group name already exists") }
      else
        let lastId := if id = lit "$" then (st.entries.getLast?.map (·.id)).getD (lit "0-0") else id
        { act := .put { st with groups := st.groups.insert group { lastId := lastId } },
          touch := true, bump := true, reply := .ok () }

def xgroupDestroy (db : Int) (key group : Bytes) : StoreM F (Except Bytes Unit) :=
  .onFieldOr .stream db key (.error noSuchKey) fun v =>
    match v with
    | none => { reply := .error noSuchKey }
    | some st =>
      if st.groups.contains group then
        { act := .put { st with groups := st.groups.erase group }, touch := true, bump := true,
          reply := .ok () }
      else { reply := .error (lit "ERR no such group") }

/-- One key of `xreadGroup`. -/
def xreadGroupOne (db : Int) (group consumer : Bytes) (count : Int) (key id : Bytes) :
    StoreM F (Except Bytes (List StreamEntry)) :=
  .withEnv fun env => .onFoundField .stream db key (.ok []) (.ok []) fun st =>
    match readGroup env.now group consumer id count st with
    | none => { reply := .error noGroup }
    | some (st', picked) => { act := .put st', touch := true, reply := .ok picked }

/-- The key loop of `xreadGroup`: keys already read stay read when a later one has no group. -/
def xreadGroupLoop (db : Int) (group consumer : Bytes) (count : Int) :
    List (Bytes × Bytes) → StoreM F (Except Bytes (List (Bytes × List StreamEntry)))
  | [] => pure (.ok [])
  | (key, id) :: rest => do
    match ← xreadGroupOne db group consumer count key id with
    | .error e => pure (.error e)
    | .ok picked => do
      match ← xreadGroupLoop db group consumer count rest with
      | .error e => pure (.error e)
      | .ok out => pure (.ok (if picked.isEmpty then out else (key, picked) :: out))

def xreadGroup (db : Int) (group consumer : Bytes) (keys ids : List Bytes) (count : Int) :
    StoreM F (Except Bytes (List (Bytes × List StreamEntry))) :=
  if keys.length ≠ ids.length ∨ keys.isEmpty then pure (.error (lit "ERR syntax error"))
  else xreadGroupLoop db group consumer count (keys.zip ids)

/-- The shape of the operations on an existing group. -/
def onGroup {α : Type} (db : Int) (key group : Bytes)
    (f : StreamObj → StreamGroupState → Out StreamObj (Except Bytes α)) :
    StoreM F (Except Bytes α) :=
  .onFieldOr .stream db key (.error noSuchKey) fun v =>
    match v with
    | none => { reply := .error noSuchKey }
    | some st => (st.groups[group]?).elim { reply := .error noGroup } (f st)

def xack (db : Int) (key group : Bytes) (ids : List Bytes) : StoreM F (Except Bytes Int) :=
  onGroup db key group fun st gs =>
    let acked := (gs.consumers.toList.map fun c => (c.2.ack ids).2).sum
    let gs' := { gs with consumers := gs.consumers.map fun _ c => (c.ack ids).1 }
    { act := .put { st with groups := st.groups.insert group gs' }, touch := true, bump := true,
      reply := .ok acked }

def xtrim (db : Int) (key : Bytes) (maxlen : Int) : StoreM F (Except Bytes Int) :=
  if maxlen < 0 then pure (.error (lit "ERR syntax error"))
  else .onField .stream db key fun v =>
    match v with
    | none => { reply := .ok 0 }
    | some st =>
      if (st.entries.length : Int) ≤ maxlen then { reply := .ok 0 }
      else
        let remove := (st.entries.length : Int) - maxlen
        { act := .put { st with entries := st.entries.drop remove.toNat }, touch := true,
          bump := true, reply := .ok remove }

def xpendingSummary (db : Int) (key group : Bytes) : StoreM F (Except Bytes XPendingSummary) :=
  onGroup db key group fun _ gs => { reply := .ok (pendingSummary gs.consumers) }

def xpendingRange (db : Int) (key group start stop : Bytes) (count : Int) (only : Bytes) :
    StoreM F (Except Bytes (List XPendingDetail)) :=
  .withEnv fun env => onGroup db key group fun _ gs =>
    { reply := .ok (pendingRange env start stop count only gs.consumers) }

def xclaim (db : Int) (key group consumer : Bytes) (minIdleMs : Int) (ids : List Bytes)
    (force : Bool) : StoreM F (Except Bytes (List StreamEntry)) :=
  .withEnv fun env => onGroup db key group fun st gs =>
    let consumers := gs.consumers.insert consumer (gs.consumers[consumer]?.getD {})
    let r := claimAll env consumer minIdleMs force st.entries ids consumers
    { act := .put { st with groups := st.groups.insert group { gs with consumers := r.1 } },
      touch := true, bump := true, reply := .ok r.2 }

/-! ## Lemmas -/

variable {I : StoreConf → Prop} {lo hi db : Int} {key : Bytes}

omit [Platform F] in
theorem parseStreamIdToken_eq (s : Bytes) :
    parseStreamIdToken s = if s = lit "*" then some { autoId := true } else none := by
  unfold parseStreamIdToken
  split
  · rfl
  · split
    · rfl
    · simp

theorem reads_xlen : Reads (xlen db key : StoreM F _) := reads_onField fun _ => rfl

variable {count : Int}

theorem reads_xrange {start stop : Bytes} {reverse : Bool} :
    Reads (xrange db key start stop count reverse : StoreM F _) := reads_onField fun _ => rfl

theorem reads_xread {keys ids : List Bytes} :
    Reads (xread db keys ids count : StoreM F _) := by
  have hloop : ∀ l : List (Bytes × Bytes), Reads (xreadLoop db count l : StoreM F _) := by
    intro l
    induction l with
    | nil => exact .pure _
    | cons p l ih => exact .bind (keeps_onFoundField fun _ _ => rfl) fun _ => .bind ih fun _ => .pure _
  exact .ite (fun _ => .pure _) fun _ => .map (hloop _) fun _ _ => trivial

variable {group : Bytes}

theorem reads_xpendingSummary :
    Reads (xpendingSummary db key group : StoreM F _) := by
  refine keeps_onFieldOr fun v _ => ?_
  cases v with
  | none => rfl
  | some st =>
    simp only
    cases st.groups[group]? <;> rfl

theorem reads_xpendingRange {group start stop only : Bytes} :
    Reads (xpendingRange db key group start stop count only : StoreM F _) := by
  refine .withEnv fun env => keeps_onFieldOr fun v _ => ?_
  cases v with
  | none => rfl
  | some st =>
    simp only
    cases st.groups[group]? <;> rfl

theorem fails_onGroup {α : Type}
    {f : StreamObj → StreamGroupState → Out StreamObj (Except Bytes α)}
    (h : ∀ st gs, ¬ Failed (f st gs).reply) :
    KeepsWhen I Failed (onGroup db key group f : StoreM F _) := by
  refine keeps_onFieldOr fun v hp => ?_
  cases v with
  | none => rfl
  | some st =>
    simp only at hp ⊢
    cases hg : st.groups[group]? with
    | none => rfl
    | some gs =>
      rw [hg] at hp
      exact absurd hp (h st gs)

theorem fails_xdel {ids : List Bytes} : KeepsWhen I Failed (xdel db key ids : StoreM F _) := by
  refine fails_onField fun v hp => ?_
  cases v with
  | none => exact hp.elim
  | some st =>
    simp only at hp
    split at hp <;> exact hp.elim

theorem fails_xgroupCreate {group id : Bytes} {mkstream : Bool} :
    KeepsWhen I Failed (xgroupCreate db key group id mkstream : StoreM F _) := by
  refine fails_onField fun v hp => ?_
  split at hp
  next h => rw [if_pos h]
  next h =>
    rw [if_neg h]
    simp only at hp ⊢
    split at hp
    next hg => rw [if_pos hg]
    next hg => exact hp.elim

theorem fails_xgroupDestroy :
    KeepsWhen I Failed (xgroupDestroy db key group : StoreM F _) := by
  refine keeps_onFieldOr fun v hp => ?_
  cases v with
  | none => rfl
  | some st =>
    simp only at hp ⊢
    split at hp
    · exact hp.elim
    next hg => rw [if_neg hg]; rfl

theorem fails_xtrim {maxlen : Int} : KeepsWhen I Failed (xtrim db key maxlen : StoreM F _) := by
  refine .ite (fun _ => .pure _) fun _ => fails_onField fun v hp => ?_
  cases v with
  | none => exact hp.elim
  | some st =>
    simp only at hp
    split at hp <;> exact hp.elim

variable {fields : List (Bytes × Bytes)}

omit [Platform F] in
theorem xaddBody_of_ne {now : Int} {id : Bytes} (h : id ≠ lit "*")
    (v : Option StreamObj) : xaddBody now id fields v =
      { act := if v.isNone then .put {} else .keep, reply := .error (lit "ERR invalid stream ID") } := by
  unfold xaddBody
  rw [parseStreamIdToken_eq, if_neg h]

omit [Platform F] in
theorem xaddBody_auto {now : Int} (v : Option StreamObj) :
    ¬ Failed (xaddBody now (lit "*") fields v).reply := by
  unfold xaddBody
  rw [parseStreamIdToken_eq, if_pos rfl]
  exact id

theorem det_xadd {id : Bytes} (h : id = lit "*" → lo = hi) :
    Det lo hi (xadd db key id fields : StoreM F _) := by
  refine .ite (fun _ => .pure _) fun _ => .bind det_evict fun _ =>
    .withEnv (m := StoreM.onField .stream db key (xaddBody lo id fields)) (fun e he => ?_) det_onField
  by_cases hid : id = lit "*"
  · obtain rfl := h hid
    have hnow : e.now = lo := Int.le_antisymm he.2 he.1
    rw [hnow]
  · have hb : xaddBody e.now id fields = xaddBody lo id fields := by
      funext v
      rw [xaddBody_of_ne hid, xaddBody_of_ne hid]
    rw [hb]

/-- XADD with `*` or on an existing key changes nothing when it fails; with another id it leaves
an empty stream where there was no key. -/
theorem fails_xadd {id : Bytes} {env : Env} {s : KvStore F}
    (hn : s.conf.NoEvict) (h : id = lit "*" ∨ s.live env.now db key ≠ none)
    (hp : Failed (xadd db key id fields env s).1) :
    Same env.now s (xadd db key id fields env s).2 := by
  unfold xadd at hp ⊢
  split at hp
  next he => rw [if_pos he]; exact Same.refl _ _
  next he =>
    rw [if_neg he]
    simp only [StoreM.bind_apply, evictIfNeededLocked_eq_of_noEvict env s hn] at hp ⊢
    unfold StoreM.withEnv at hp ⊢
    by_cases hid : id = lit "*"
    · subst hid
      exact fails_onField (I := fun _ => True) (fun v hf => absurd hf (xaddBody_auto v)) env s trivial hp
    · exact same_onField (h.resolve_left hid) fun v => by rw [xaddBody_of_ne hid]; rfl

theorem det_onGroup {α : Type}
    {f : StreamObj → StreamGroupState → Out StreamObj (Except Bytes α)} :
    Det lo hi (onGroup db key group f : StoreM F _) := det_onFieldOr

theorem det_xtrim {maxlen : Int} : Det lo hi (xtrim db key maxlen : StoreM F _) :=
  .ite (fun _ => .pure _) fun _ => det_onField

end KvStore

end Kv
