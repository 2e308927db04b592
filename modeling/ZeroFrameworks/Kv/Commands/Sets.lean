import ZeroFrameworks.Kv.Commands.Hashes
import ZeroFrameworks.Kv.Store.Sets

/-!
# Set commands

SPOP takes whichever member the container lists first, so it is not repeatable; the other write
commands are `Steady`.
-/

namespace Kv.Commands

variable {F : Type} [Platform F]

/-! ## Handlers -/

/-- The shape of the commands on a key and a list of strings. -/
def onStrings (command : String) (op : Int → Bytes → List Bytes → StoreM F (Except Bytes Int))
    (db : Int) (args : List RespValue) : StoreM F RespValue :=
  if args.length < 3 ∨ nullAt args 1 then pure (wrongArity command)
  else withArg (strings (args.drop 2)) syntaxError fun members =>
    replyWith (op db (strAt args 1) members) .integer

def sadd (db : Int) (args : List RespValue) : StoreM F RespValue := onStrings "sadd" KvStore.setAdd db args

def srem (db : Int) (args : List RespValue) : StoreM F RespValue := onStrings "srem" KvStore.setRem db args

def smembers (db : Int) (args : List RespValue) : StoreM F RespValue :=
  if args.length ≠ 2 ∨ nullAt args 1 then pure (wrongArity "smembers")
  else replyWith (KvStore.setMembers db (strAt args 1)) bulkArray

def scard (db : Int) (args : List RespValue) : StoreM F RespValue :=
  if args.length ≠ 2 ∨ nullAt args 1 then pure (wrongArity "scard")
  else replyWith (KvStore.setCard db (strAt args 1)) fun n => .integer (n.getD 0)

def sismember (db : Int) (args : List RespValue) : StoreM F RespValue :=
  if args.length ≠ 3 ∨ nullAt args 1 ∨ nullAt args 2 then pure (wrongArity "sismember")
  else replyWith (KvStore.setIsMember db (strAt args 1) (strAt args 2)) fun b =>
    .integer (if b then 1 else 0)

def spop (db : Int) (args : List RespValue) : StoreM F RespValue :=
  if args.length ≠ 2 ∨ nullAt args 1 then pure (wrongArity "spop")
  else replyWith (KvStore.spop db (strAt args 1)) bulkOrNull

/-- The shape of SINTER, SUNION and SDIFF. -/
def setAlgebra (command : String) (op : Int → List Bytes → StoreM F (Except Bytes (List Bytes)))
    (db : Int) (args : List RespValue) : StoreM F RespValue :=
  if args.length < 2 then pure (wrongArity command)
  else withArg (strings (args.drop 1)) syntaxError fun keys => replyWith (op db keys) bulkArray

def sinter (db : Int) (args : List RespValue) : StoreM F RespValue :=
  setAlgebra "sinter" KvStore.setInter db args

def sunion (db : Int) (args : List RespValue) : StoreM F RespValue :=
  setAlgebra "sunion" KvStore.setUnion db args

def sdiff (db : Int) (args : List RespValue) : StoreM F RespValue :=
  setAlgebra "sdiff" KvStore.setDiff db args

def sinterstore (db : Int) (args : List RespValue) : StoreM F RespValue :=
  onStrings "sinterstore" KvStore.setInterStore db args

def sunionstore (db : Int) (args : List RespValue) : StoreM F RespValue :=
  onStrings "sunionstore" KvStore.setUnionStore db args

def sdiffstore (db : Int) (args : List RespValue) : StoreM F RespValue :=
  onStrings "sdiffstore" KvStore.setDiffStore db args

def sscan (db : Int) (args : List RespValue) : StoreM F RespValue :=
  dispatchCollectionScan "sscan" KvStore.sscan db args

/-! ## Lemmas -/

variable {lo hi db : Int} {args : List RespValue}

theorem reads_smembers : Reads (smembers db args : StoreM F _) :=
  .check fun _ => .reply KvStore.reads_setMembers

theorem reads_scard : Reads (scard db args : StoreM F _) := .check fun _ => .reply KvStore.reads_setCard

theorem reads_sismember : Reads (sismember db args : StoreM F _) :=
  .check fun _ => .reply KvStore.reads_setIsMember

theorem reads_setAlgebra {command : String}
    {op : Int → List Bytes → StoreM F (Except Bytes (List Bytes))} (h : ∀ keys, Reads (op db keys)) :
    Reads (setAlgebra command op db args) :=
  .check fun _ => .withArg fun _ _ => .reply (h _)

theorem reads_sinter : Reads (sinter db args : StoreM F _) :=
  reads_setAlgebra fun _ => .map KvStore.reads_interLoop fun _ _ => trivial

theorem reads_sunion : Reads (sunion db args : StoreM F _) :=
  reads_setAlgebra fun _ => .map KvStore.reads_unionLoop fun _ _ => trivial

theorem reads_sdiff : Reads (sdiff db args : StoreM F _) :=
  reads_setAlgebra fun _ => .map KvStore.reads_diffAll fun _ _ => trivial

theorem reads_sscan : Reads (sscan db args : StoreM F _) :=
  reads_dispatchCollectionScan fun _ _ _ _ => KvStore.reads_sscan

theorem steady_onStrings {command : String}
    {op : Int → Bytes → List Bytes → StoreM F (Except Bytes Int)}
    (hd : ∀ key members, Det lo hi (op db key members))
    (hf : ∀ key members, KeepsWhen StoreConf.NoEvict Failed (op db key members)) :
    Steady lo hi (onStrings command op db args) :=
  .check fun _ => .withArg fun _ _ => .reply (hd _ _) (hf _ _) fun _ => rfl

theorem steady_sadd : Steady lo hi (sadd db args : StoreM F _) :=
  steady_onStrings (fun _ _ => KvStore.det_setAdd) fun _ _ => KvStore.fails_setAdd

theorem steady_srem : Steady lo hi (srem db args : StoreM F _) :=
  steady_onStrings (fun _ _ => KvStore.det_setRem) fun _ _ => KvStore.fails_setRem

theorem steady_sinterstore : Steady lo hi (sinterstore db args : StoreM F _) :=
  steady_onStrings (fun _ _ => KvStore.det_setInterStore) fun _ _ => KvStore.fails_setInterStore

theorem steady_sunionstore : Steady lo hi (sunionstore db args : StoreM F _) :=
  steady_onStrings (fun _ _ => KvStore.det_setUnionStore) fun _ _ => KvStore.fails_setUnionStore

theorem steady_sdiffstore : Steady lo hi (sdiffstore db args : StoreM F _) :=
  steady_onStrings (fun _ _ => KvStore.det_setDiffStore) fun _ _ => KvStore.fails_setDiffStore

end Kv.Commands
