import ZeroFrameworks.Kv.Commands.Args
import ZeroFrameworks.Kv.Persistence.Rdb
import ZeroFrameworks.Kv.Store.Keys

/-!
# Key commands

TTL and PTTL erase a key whose deadline is negative, so they leave the contents as they were only
when no deadline is (`same_ttlCommand`).  The expiry commands are `Steady` when the key is erased
anyway or its deadline does not depend on the clock.
-/

namespace Kv.Commands

variable {F : Type} [Platform F]

/-! ## Handlers -/

def dbsize (db : Int) (args : List RespValue) : StoreM F RespValue :=
  if args.length ≠ 1 then pure (wrongArity "dbsize") else .integer <$> KvStore.dbsize db

def flushdb (db : Int) (args : List RespValue) : StoreM F RespValue :=
  if args.length ≠ 1 then pure (wrongArity "flushdb") else (fun _ => .ok) <$> KvStore.flushdb db

def flushall (_db : Int) (args : List RespValue) : StoreM F RespValue :=
  if args.length ≠ 1 then pure (wrongArity "flushall") else (fun _ => .ok) <$> KvStore.flushall

def type (db : Int) (args : List RespValue) : StoreM F RespValue :=
  if args.length ≠ 2 ∨ nullAt args 1 then pure (wrongArity "type")
  else .bulk <$> KvStore.type db (strAt args 1)

def keys (db : Int) (args : List RespValue) : StoreM F RespValue :=
  if args.length ≠ 2 ∨ nullAt args 1 then pure (wrongArity "keys")
  else bulkArray <$> KvStore.keys db (strAt args 1)

structure ScanOptions where
  pattern : Bytes := lit "*"
  count : Int := 10

/-- The option loop of SCAN and its relatives, whose number parsers differ. -/
def parseScanOptions (parse : RespValue → Option Int) (opt : ScanOptions) :
    List RespValue → Except RespValue ScanOptions
  | [] => .ok opt
  | v :: rest =>
    if v.isNull then .error syntaxError
    else if upper v.str = lit "MATCH" then
      match rest with
      | [] => .error syntaxError
      | w :: rest =>
        if w.isNull then .error syntaxError
        else parseScanOptions parse { opt with pattern := w.str } rest
    else if upper v.str = lit "COUNT" then
      match rest with
      | [] => .error syntaxError
      | w :: rest =>
        match parse w with
        | none => .error syntaxError
        | some n => parseScanOptions parse { opt with count := n } rest
    else .error syntaxError

/-- A page and its next cursor. -/
def scanReply (r : Nat × List Bytes) : RespValue := .array [.bulk (printNat r.1), bulkArray r.2]

def scan (db : Int) (args : List RespValue) : StoreM F RespValue :=
  if args.length < 2 ∨ nullAt args 1 then pure (wrongArity "scan")
  else withArg ((intAt args 1).filter (0 ≤ ·)) (.err "ERR invalid cursor") fun cursor =>
    withParsed (parseScanOptions parseInt64Arg {} (args.drop 2)) fun opt =>
      scanReply <$> KvStore.scan db cursor.toNat opt.pattern (i32 opt.count)

def exist (db : Int) (args : List RespValue) : StoreM F RespValue :=
  if args.length < 2 then pure (wrongArity "exists")
  else withArg (strings (args.drop 1)) syntaxError fun keys => .integer <$> KvStore.existsMany db keys

def del (db : Int) (args : List RespValue) : StoreM F RespValue :=
  if args.length < 2 then pure (wrongArity "del")
  else withArg (strings (args.drop 1)) syntaxError fun keys => .integer <$> KvStore.delMany db keys

/-- The shape of the four expiry commands. -/
def expireCommand (command : String) (op : Int → Bytes → Int → StoreM F Int) (db : Int)
    (args : List RespValue) : StoreM F RespValue :=
  if args.length ≠ 3 ∨ nullAt args 1 ∨ nullAt args 2 then pure (wrongArity command)
  else withArg (intAt args 2) notIntegerError fun n => .integer <$> op db (strAt args 1) n

def expire (db : Int) (args : List RespValue) : StoreM F RespValue :=
  expireCommand "expire" KvStore.expire db args

def pexpire (db : Int) (args : List RespValue) : StoreM F RespValue :=
  expireCommand "pexpire" KvStore.pexpire db args

def expireat (db : Int) (args : List RespValue) : StoreM F RespValue :=
  expireCommand "expireat" KvStore.expireAt db args

def pexpireat (db : Int) (args : List RespValue) : StoreM F RespValue :=
  expireCommand "pexpireat" KvStore.pexpireAt db args

def ttl (db : Int) (args : List RespValue) : StoreM F RespValue :=
  if args.length ≠ 2 ∨ nullAt args 1 then pure (wrongArity "ttl")
  else .integer <$> KvStore.ttl db (strAt args 1)

def pttl (db : Int) (args : List RespValue) : StoreM F RespValue :=
  if args.length ≠ 2 ∨ nullAt args 1 then pure (wrongArity "pttl")
  else .integer <$> KvStore.pttl db (strAt args 1)

def persist (db : Int) (args : List RespValue) : StoreM F RespValue :=
  if args.length ≠ 2 ∨ nullAt args 1 then pure (wrongArity "persist")
  else .integer <$> KvStore.persist db (strAt args 1)

def rename (db : Int) (args : List RespValue) : StoreM F RespValue :=
  if args.length ≠ 3 ∨ nullAt args 1 ∨ nullAt args 2 then pure (wrongArity "rename")
  else replyWith (KvStore.renameKey db (strAt args 1) (strAt args 2) false) fun _ => .ok

def renamenx (db : Int) (args : List RespValue) : StoreM F RespValue :=
  if args.length ≠ 3 ∨ nullAt args 1 ∨ nullAt args 2 then pure (wrongArity "renamenx")
  else replyWith (KvStore.renameKey db (strAt args 1) (strAt args 2) true) fun rc =>
    .integer (if rc then 1 else 0)

def dump (db : Int) (args : List RespValue) : StoreM F RespValue :=
  if args.length ≠ 2 ∨ nullAt args 1 then pure (wrongArity "dump")
  else bulkOrNull <$> KvStore.dumpKey db (strAt args 1)

def restore (db : Int) (args : List RespValue) : StoreM F RespValue :=
  if args.length < 4 ∨ nullAt args 1 ∨ nullAt args 2 ∨ nullAt args 3 then pure (wrongArity "restore")
  else withArg (prefixIntAt args 2) (.err "ERR invalid TTL value, must be an integer") fun ttl =>
    let replace := (args.drop 4).any fun v => !v.isNull && decide (upper v.str = lit "REPLACE")
    replyWith (KvStore.restoreKey db (strAt args 1) ttl (strAt args 3) replace) fun _ => .ok

/-! ## Lemmas -/

variable {lo hi db : Int} {args : List RespValue}

theorem reads_map {α : Type} {m : StoreM F α} {f : α → RespValue} (h : Reads m) : Reads (f <$> m) :=
  .map h fun _ _ => trivial

theorem reads_dbsize : Reads (dbsize db args : StoreM F _) :=
  .check fun _ => reads_map KvStore.reads_dbsize

theorem reads_type : Reads (type db args : StoreM F _) :=
  .check fun _ => reads_map KvStore.reads_type

theorem reads_keys : Reads (keys db args : StoreM F _) :=
  .check fun _ => reads_map KvStore.reads_keys

theorem reads_scan : Reads (scan db args : StoreM F _) :=
  .check fun _ => .withArg fun _ _ => .withParsed fun _ _ => reads_map KvStore.reads_scan

theorem reads_exist : Reads (exist db args : StoreM F _) :=
  .check fun _ => .withArg fun _ _ => reads_map KvStore.reads_existsMany

theorem reads_dump : Reads (dump db args : StoreM F _) :=
  .check fun _ => reads_map KvStore.reads_dumpKey

theorem same_ttl {env : Env} {s : KvStore F} (hq : Quiet lo hi s) :
    Same env.now s (ttl db args env s).2 := by
  unfold ttl
  split
  · exact Same.refl _ _
  · exact KvStore.same_ttlWith hq

theorem same_pttl {env : Env} {s : KvStore F} (hq : Quiet lo hi s) :
    Same env.now s (pttl db args env s).2 := by
  unfold pttl
  split
  · exact Same.refl _ _
  · exact KvStore.same_ttlWith hq

theorem steady_flushdb : Steady lo hi (flushdb db args : StoreM F _) :=
  .check fun _ => .map KvStore.det_flushdb fun _ => rfl

theorem steady_flushall (db : Int) : Steady lo hi (flushall db args : StoreM F _) :=
  .check fun _ => .map KvStore.det_flushall fun _ => rfl

theorem steady_del : Steady lo hi (del db args : StoreM F _) :=
  .check fun _ => .withArg fun _ _ => .map KvStore.det_delMany fun _ => rfl

theorem steady_persist : Steady lo hi (persist db args : StoreM F _) :=
  .check fun _ => .map KvStore.det_persist fun _ => rfl

theorem steady_rename : Steady lo hi (rename db args : StoreM F _) :=
  .check fun _ => .reply KvStore.det_renameKey KvStore.fails_renameKey fun _ => rfl

theorem steady_renamenx : Steady lo hi (renamenx db args : StoreM F _) :=
  .check fun _ => .reply KvStore.det_renameKey KvStore.fails_renameKey fun _ => rfl

/-- The expiry argument erases the key, or the deadline it gives does not depend on the clock. -/
def ExpireFixed (lo hi : Int) (deadline : Int → Int → Int) (args : List RespValue) : Prop :=
  ∀ n, intAt args 2 = some n → n ≤ 0 ∨
    ∃ d, 0 < d ∧ (d ≤ lo ∨ hi < d) ∧ ∀ now, lo ≤ now → now ≤ hi → deadline n now = d

variable {op : Int → Bytes → Int → StoreM F Int} {command : String}

theorem steady_expireCommand
    (h : ∀ key n, intAt args 2 = some n → Det lo hi (op db key n)) :
    Steady lo hi (expireCommand command op db args) :=
  .check fun _ => .withArg fun n hn => .map (h _ n hn) fun _ => rfl

theorem steady_relative
    {deadline : Int → Int → Int} (h : ExpireFixed lo hi deadline args)
    (hop : ∀ key n, op db key n = StoreM.withEnv fun env =>
      StoreM.onEntry db key (KvStore.expireBody n (deadline n env.now) 1)) :
    Steady lo hi (expireCommand command op db args) := by
  refine steady_expireCommand fun key n hn => ?_
  rw [hop]
  refine KvStore.det_expireBody (deadline n) (fun _ => 1) ((h n hn).imp id ?_)
  rintro ⟨d, hpos, hd, hc⟩
  exact ⟨d, 1, .inr ⟨hpos, hd⟩, fun now h1 h2 => ⟨hc now h1 h2, rfl⟩⟩

theorem steady_absolute
    {deadline : Int → Int} (h : ExpireFixed lo hi (fun n _ => deadline n) args)
    (hop : ∀ key n, op db key n = StoreM.withEnv fun env => StoreM.onEntry db key
      (KvStore.expireBody n (deadline n) (if env.now < deadline n then 1 else 0))) :
    Steady lo hi (expireCommand command op db args) := by
  refine steady_expireCommand fun key n hn => ?_
  rw [hop]
  refine KvStore.det_expireBody (fun _ => deadline n)
    (fun now => if now < deadline n then 1 else 0) ((h n hn).imp id ?_)
  rintro ⟨d, hpos, hd, hc⟩
  refine ⟨d, if d ≤ lo then 0 else 1, .inr ⟨hpos, hd⟩, fun now h1 h2 => ⟨hc now h1 h2, ?_⟩⟩
  have hn := hc now h1 h2
  simp only at hn
  grind

theorem steady_expire (h : ExpireFixed lo hi (fun n now => i64 (now + n * 1000)) args) :
    Steady lo hi (expire db args : StoreM F _) := steady_relative h fun _ _ => rfl

theorem steady_pexpire (h : ExpireFixed lo hi (fun n now => i64 (now + n)) args) :
    Steady lo hi (pexpire db args : StoreM F _) := steady_relative h fun _ _ => rfl

theorem steady_expireat (h : ExpireFixed lo hi (fun n _ => i64 (n * 1000)) args) :
    Steady lo hi (expireat db args : StoreM F _) := steady_absolute h fun _ _ => rfl

theorem steady_pexpireat (h : ExpireFixed lo hi (fun n _ => n) args) :
    Steady lo hi (pexpireat db args : StoreM F _) := steady_absolute h fun _ _ => rfl

/-- The deadline RESTORE gives does not depend on the clock. -/
def RestoreFixed (lo hi : Int) (args : List RespValue) : Prop :=
  ∀ ttl, prefixIntAt args 2 = some ttl → FixedDeadline lo hi fun now => KvStore.restoreDeadline now ttl

theorem steady_restore (h : RestoreFixed lo hi args) : Steady lo hi (restore db args : StoreM F _) :=
  .check fun _ => .withArg fun ttl ht =>
    .reply (KvStore.det_restoreKey (h ttl ht)) KvStore.fails_restoreKey fun _ => rfl

end Kv.Commands
