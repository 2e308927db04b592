import ZeroFrameworks.Kv.Store.Field

/-!
# Snapshots

The binary format of `Rdb`: a header, then for each database its number and its unexpired entries,
then a footer byte.  DUMP and RESTORE use the same entry payloads behind a header of their own.
Readers are `Codec` readers whose error is the text the loader reports, or the exception of a `reserve` that has no
memory; the paths that report no text give the empty one.

The counts and lengths of the format are 32-bit: longer ones are cut off when written.
-/

namespace Kv

open Codec

variable {F : Type}

/-! ## Containers -/

/-- What an unordered map lists, in the order it lists its keys. -/
def BMap.listed {V : Type} (order : List Bytes → List Bytes) (m : BMap V) : List (Bytes × V) :=
  (order m.keys).filterMap fun key => m[key]?.map fun v => (key, v)

/-! ## Writing -/

def appendU8 (b : UInt8) : Bytes := [b]

def appendU32 (n : Nat) : Bytes := le 4 n

def appendU64 (n : Nat) : Bytes := le 8 n

def appendI64 (n : Int) : Bytes := le 8 (n % 2 ^ 64).toNat

def appendStr (s : Bytes) : Bytes := appendU32 s.length ++ s

/-- A count followed by the items. -/
def appendAll {α : Type} (f : α → Bytes) (xs : List α) : Bytes := appendU32 xs.length ++ xs.flatMap f

def appendPair (f : Bytes × Bytes) : Bytes := appendStr f.1 ++ appendStr f.2

/-- One pending id of a consumer with its delivery data, `0` and `1` where there is none. -/
def appendPending (c : StreamConsumerState) (id : Bytes) : Bytes :=
  let info := c.pendingMeta[id]?.getD { deliveryMs := 0, deliveryCount := 1 }
  appendStr id ++ (appendI64 info.deliveryMs ++ appendI64 info.deliveryCount)

def appendConsumer (c : Bytes × StreamConsumerState) : Bytes :=
  appendStr c.1 ++ (appendStr c.2.lastId ++ appendAll (appendPending c.2) c.2.pending)

section
variable (order : List Bytes → List Bytes)

def appendGroup (g : Bytes × StreamGroupState) : Bytes :=
  appendStr g.1 ++ (appendStr g.2.lastId ++ appendAll appendConsumer (g.2.consumers.listed order))

def appendStreamItem (e : StreamEntry) : Bytes :=
  appendStr e.id ++ appendAll appendPair (e.fields.listed order)

def writeStreamEntry (o : Obj F) : Bytes :=
  appendU64 o.streamLastMs ++ (appendU64 o.streamLastSeq ++
    (appendAll (appendStreamItem order) o.stream ++
      appendAll (appendGroup order) (o.streamGroups.listed order)))

variable [Platform F]

/-- `writeEntryPayload`, which `dumpBinaryV2` repeats in its loop. -/
def writeEntryPayload (o : Obj F) : Bytes :=
  match o.type with
  | .hash => appendAll appendPair (o.hash.listed order)
  | .list => appendAll appendStr o.list
  | .set => appendAll appendStr (order o.set.toList)
  | .zset => appendAll (fun z => appendStr z.1 ++ Platform.toBytes z.2) (o.zset.listed order)
  | .stream => writeStreamEntry order o
  | .string | .other _ => appendStr o.value

end

/-- `(uint8_t)e.type`. -/
def ObjType.code : ObjType → UInt8
  | .string => 0
  | .hash => 1
  | .list => 2
  | .set => 3
  | .zset => 4
  | .stream => 5
  | .other c => c

/-- `(KvStore::ObjType)type`. -/
def ObjType.ofCode (c : UInt8) : ObjType :=
  if c = 0 then .string else if c = 1 then .hash else if c = 2 then .list else if c = 3 then .set
  else if c = 4 then .zset else if c = 5 then .stream else .other c

/-! ## Reading -/

/-- How a load gives up: it reports a text, or `std::bad_alloc` goes through it. -/
inductive RdbError where
  | text (e : Bytes)
  | thrown

abbrev RdbReader := Reader UInt8 RdbError

/-- Report the failures of `r` with this text; an exception passes. -/
abbrev reported {α : Type} (text : Bytes) (r : RdbReader α) : RdbReader α :=
  named (fun | .text _ => .text text | .thrown => .thrown) r

def readU8 : RdbReader UInt8 := do
  let n ← readLe 1 (.text [])
  pure (UInt8.ofNat n)

def readU32 : RdbReader Nat := readLe 4 (.text [])

def readU64 : RdbReader Nat := readLe 8 (.text [])

def readI64 : RdbReader Int := do
  let n ← readLe 8 (.text [])
  pure (i64 n)

def readStr : RdbReader Bytes := do
  let len ← readU32
  take len (.text [])

/-- A count, then as many items. -/
def readAll {α : Type} (r : RdbReader α) : RdbReader (List α) := do
  let n ← readU32
  many r n

def readPair : RdbReader (Bytes × Bytes) := do
  let k ← readStr
  let v ← readStr
  pure (k, v)

def readMap {V : Type} (r : RdbReader (Bytes × V)) : RdbReader (BMap V) := do
  let l ← readAll r
  pure (Std.ExtTreeMap.ofList l compare)

def readPending : RdbReader (Bytes × StreamPendingMeta) := do
  let id ← readStr
  let ms ← readI64
  let count ← readI64
  pure (id, { deliveryMs := ms, deliveryCount := count })

def readConsumer : RdbReader (Bytes × StreamConsumerState) := do
  let name ← readStr
  let lastId ← readStr
  let pending ← readAll readPending
  pure (name, { lastId := lastId, pending := pending.map Prod.fst,
                pendingMeta := Std.ExtTreeMap.ofList pending compare })

def readGroupState : RdbReader (Bytes × StreamGroupState) := do
  let name ← readStr
  let lastId ← readStr
  let consumers ← readMap readConsumer
  pure (name, { lastId := lastId, consumers := consumers })

def readStreamItem : RdbReader StreamEntry := do
  let id ← readStr
  let fields ← readMap readPair
  pure { id := id, fields := fields }

variable [Platform F]

/-- A count of items of at least eight bytes, which are made room for, and the items. -/
def readReserved (F : Type) [Platform F] {α : Type} (r : RdbReader α) : RdbReader (List α) := do
  let n ← readU32
  reserved 8 (Platform.room F) .thrown r n

def readStreamEntry : RdbReader (Obj F) := do
  let ms ← readU64
  let seq ← readU64
  let items ← readReserved F readStreamItem
  let groups ← readMap readGroupState
  pure { type := .stream, stream := items, streamLastMs := ms, streamLastSeq := seq,
         streamGroups := groups }

def readScore : RdbReader (Bytes × F) := do
  let m ← readStr
  let bytes ← take 8 (.text [])
  pure (m, Platform.ofBytes bytes)

/-- `readEntryPayload`. -/
def readEntryPayload (type : ObjType) : RdbReader (Obj F) :=
  match type with
  | .hash => do
    let h ← readMap readPair
    pure { type := .hash, hash := h }
  | .list => do
    let l ← readAll readStr
    pure { type := .list, list := l }
  | .set => do
    let l ← readAll readStr
    pure { type := .set, set := Std.ExtTreeSet.ofList l compare }
  | .zset => do
    let z ← readMap readScore
    pure { type := .zset, zset := z }
  | .stream => readStreamEntry
  | type => do
    let v ← readStr
    pure { type := type, value := v }

/-! ## Whole snapshots -/

/-- `kMagicV2`, with the NUL that ends the literal. -/
def magicV2 : Bytes := lit "SYRDB2" ++ [0, 0]

/-- One pass of the loop that groups the entries of the shards by database. -/
def addSnapshot (snapshot : List (Int × List (Bytes × Item F))) (db : Int)
    (entries : List (Bytes × Item F)) : List (Int × List (Bytes × Item F)) :=
  if snapshot.any (·.1 == db) then
    snapshot.map fun slot => if slot.1 = db then (db, slot.2 ++ entries) else slot
  else if entries.isEmpty then snapshot
  else snapshot ++ [(db, entries)]

/-- The unexpired entries of one database of one shard. -/
def DbMap.unexpired (env : Env) (m : DbMap F) : List (Bytes × Item F) :=
  ((m.listed env.order).filter fun e => !e.2.expired env.now).map fun e => (e.1, e.2.toItem)

namespace KvStore

def snapshot (env : Env) (s : KvStore F) : List (Int × List (Bytes × Item F)) :=
  (List.finRange 16).foldl (fun snap i => (s.shards i).dbs.entries.foldl
    (fun snap db => addSnapshot snap db.1 (DbMap.unexpired env db.2)) snap) []

end KvStore

def appendEntry (order : List Bytes → List Bytes) (e : Bytes × Item F) : Bytes :=
  appendStr e.1 ++ (appendI64 e.2.expireAtMs ++
    (appendU8 e.2.type.code ++ writeEntryPayload order e.2.toObj))

def appendDb (order : List Bytes → List Bytes) (db : Int × List (Bytes × Item F)) : Bytes :=
  appendI64 db.1 ++ appendAll (appendEntry order) db.2

def dumpBinaryV2 (env : Env) (s : KvStore F) : Bytes :=
  magicV2 ++ (appendU32 2 ++ (appendU64 (env.now % 2 ^ 64).toNat ++
    (appendAll (appendDb env.order) (s.snapshot env) ++ appendU8 0xFF)))

/-- The value of an unexpired entry; an unknown type is read as a string. -/
def readValue (type : ObjType) : RdbReader (Obj F) :=
  match type with
  | .stream => reported (lit "ERR malformed RDB stream") (readEntryPayload .stream)
  | .other _ => readEntryPayload .string
  | type => readEntryPayload type

/-- The type and payload of an entry whose deadline `load` has read; `none` when it is expired. -/
def readBody (now expireAtMs : Int) : RdbReader (Option (Item F)) := do
  if 0 < expireAtMs ∧ expireAtMs ≤ now then
    let type ← readU8
    let _ ← reported (lit "ERR malformed RDB entry payload") (readEntryPayload (F := F) (.ofCode type))
    pure none
  else
    let type ← reported (lit "ERR malformed RDB type") readU8
    let o ← readValue (.ofCode type)
    pure (some { o with expireAtMs := expireAtMs })

/-- One entry, as `loadBinaryV2` reads it at `now`. -/
def readEntry (now : Int) : RdbReader (Bytes × Option (Item F)) := do
  let key ← reported (lit "ERR malformed RDB entry") readStr
  let expireAtMs ← reported (lit "ERR malformed RDB entry") readI64
  let o ← readBody now expireAtMs
  pure (key, o)

/-- A database as it is read: its number, an `int` in the rebuilt map, and its keys, of which the expired ones have
nothing. -/
abbrev ReadDb (F : Type) := Int × List (Bytes × Option (Item F))

def readDb (now : Int) : RdbReader (ReadDb F) := do
  let db ← reported (lit "ERR malformed RDB db id") readI64
  let n ← reported (lit "ERR malformed RDB key count") readU32
  let entries ← many (readEntry now) n
  pure (Int.bmod db (2 ^ 32), entries)

/-- The databases and the footer. -/
def readDbs (now : Int) : RdbReader (List (ReadDb F)) := do
  let n ← reported (lit "ERR malformed RDB databases") readU32
  let dbs ← many (readDb now) n
  let footer ← reported (lit "ERR malformed RDB footer") readU8
  if footer ≠ 0xFF then fail (.text (lit "ERR malformed RDB footer")) else pure dbs

def readV2 (now : Int) : RdbReader (List (ReadDb F)) := do
  let magic ← take 8 (.text (lit "ERR invalid RDB magic"))
  if magic ≠ magicV2 then fail (.text (lit "ERR invalid RDB magic"))
  else do
    let version ← reported (lit "ERR unsupported RDB version") readU32
    if version ≠ 2 then fail (.text (lit "ERR unsupported RDB version"))
    else do
      let _ ← reported (lit "ERR malformed RDB header") readU64
      readDbs now

/-- The entries a snapshot holds, in the order of the file. -/
def rebuilt (dbs : List (ReadDb F)) : List (Int × Bytes × Item F) :=
  dbs.flatMap fun db => db.2.filterMap fun e => e.2.map fun o => (db.1, e.1, o)

namespace KvStore

/-- `m_dbs.clear()` and the watch versions cleared, in every shard. -/
def cleared (s : KvStore F) : KvStore F :=
  { s with
    shards := fun i => { s.shards i with dbs := ∅, watchVersions := fun _ => ∅ }
    placed := by
      intro i db m key hl
      cases hl }

/-- Replace the contents by the given entries. -/
def install (entries : List (Int × Bytes × Item F)) (s : KvStore F) : KvStore F :=
  entries.foldl (fun s e => s.putEntry e.1 e.2.1 (some { e.2.2 with })) s.cleared

/-- The text a load that stopped reports; what follows a read past the end is not defined, and an exception goes on
to the caller. -/
def faultText : Fault RdbError → Bytes
  | .past | .stop .thrown => []
  | .stop (.text e) => e

def loadBinaryV2 (data : Bytes) : StoreM F (Except Bytes Unit) := fun env s =>
  match readV2 env.now data with
  | .error fault => (.error (faultText fault), s)
  | .ok (dbs, _) => (.ok (), s.install (rebuilt dbs))

def loadFromJsonV1 (data : Bytes) : StoreM F (Except Bytes Unit) := fun env s =>
  match Platform.jsonV1 env.now data with
  | .error e => (.error e, s)
  | .ok entries => (.ok (), s.install entries)

/-- `Rdb::loadFromString`. -/
def loadFromString (data : Bytes) : StoreM F (Except Bytes Unit) :=
  if data.isEmpty then pure (.error (lit "ERR empty RDB payload"))
  else if 7 ≤ data.length ∧ data.take 6 = lit "SYRDB2" then loadBinaryV2 data
  else loadFromJsonV1 data

/-! ## One key -/

/-- `kDumpMagic`, with the NUL that ends the literal. -/
def dumpMagic : Bytes := lit "SYRDMP" ++ [0, 0]

/-- The payload of DUMP, `none` where there is no key. -/
def dumpKey (db : Int) (key : Bytes) : StoreM F (Option Bytes) :=
  .withEnv fun env => .peek db key fun o => o.map fun o =>
    dumpMagic ++ (appendI64 o.expireAtMs ++
      (appendU8 o.type.code ++ writeEntryPayload env.order o.toObj))

def badPayload : Bytes := lit "ERR DUMP payload version or checksum are wrong"

/-- The value a payload holds; bytes after it are not looked at.  That `reserve` throws counts as a payload that is
not read. -/
def parseDump (payload : Bytes) : Except Bytes (Obj F) :=
  if payload.length < 8 ∨ payload.take 6 ≠ lit "SYRDMP" then .error badPayload
  else
    let r : RdbReader (Obj F) := do
      let _ ← readI64
      let type ← readU8
      readEntryPayload (.ofCode type)
    match r (payload.drop 8) with
    | .ok (o, _) => .ok o
    | .error _ => .error badPayload

def restoreBody (o : Obj F) (deadline : Int) (replace : Bool) (old : Option (Item F)) :
    Out (Item F) (Except Bytes Unit) :=
  if old.isSome && !replace then
    { reply := .error (lit "BUSYKEY Target key name already exists.") }
  else
    { act := .put { o with expireAtMs := deadline }, touch := true, bump := true, reply := .ok () }

/-- The deadline RESTORE gives; a negative ttl gives one in the past. -/
def restoreDeadline (now ttlMs : Int) : Int := if ttlMs = 0 then 0 else i64 (now + ttlMs)

def restoreKey (db : Int) (key : Bytes) (ttlMs : Int) (payload : Bytes) (replace : Bool) :
    StoreM F (Except Bytes Unit) :=
  match parseDump payload with
  | .error e => pure (.error e)
  | .ok o => .withEnv fun env => .onEntry db key
      (restoreBody o (restoreDeadline env.now ttlMs) replace)

/-! ## Lemmas -/

variable {I : StoreConf → Prop} {lo hi db : Int} {key : Bytes}

theorem reads_dumpKey : Reads (dumpKey db key : StoreM F _) := .withEnv fun _ => .peek

theorem fails_restoreKey {ttl : Int} {payload : Bytes} {replace : Bool} :
    KeepsWhen I Failed (restoreKey db key ttl payload replace : StoreM F _) := by
  unfold restoreKey
  split
  · exact .pure _
  · refine .withEnv fun env => .onEntry fun o hp => ?_
    unfold restoreBody at hp ⊢
    split at hp
    next hb => rw [if_pos hb]; rfl
    · exact hp.elim

theorem det_restoreKey {ttl : Int} {payload : Bytes} {replace : Bool}
    (h : FixedDeadline lo hi fun now => restoreDeadline now ttl) :
    Det lo hi (restoreKey db key ttl payload replace : StoreM F _) := by
  obtain ⟨d, hd, hc⟩ := h
  unfold restoreKey
  split
  · exact .pure _
  next o _ =>
    refine .withEnv (m := StoreM.onEntry db key (restoreBody o d replace))
      (fun e he => by rw [← hc e.now he.1 he.2]) (.onEntryTtl (fun old => ?_) fun old o' hp => ?_)
    · cases old <;> cases replace <;> rfl
    · unfold restoreBody at hp
      split at hp
      · cases hp
      · cases hp
        exact .inl hd

end KvStore

end Kv
