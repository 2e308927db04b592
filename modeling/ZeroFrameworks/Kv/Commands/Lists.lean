import ZeroFrameworks.Kv.Commands.Args
import ZeroFrameworks.Kv.Store.Lists

/-!
# List commands

A push first changes the list and then wakes at most one waiter (`onPush`), whose pop it carries
out itself.  The blocking pops try their keys; when they have to wait, what they are woken with
comes from `Env`: the pop has then been done by the push that woke them.
-/

namespace Kv

variable {F : Type} [Platform F]

/-! ## Waiters -/

structure ListWaiter where
  session : Option Nat := none
  db : Int := 0
  keys : List Bytes := []
  popRight : Bool := false

/-- `tryFulfill`: pop from the first of the waiter's keys that has something. -/
def tryFulfill (db : Int) (popRight : Bool) : List Bytes → StoreM F (Option (Bytes × Bytes))
  | [] => pure none
  | key :: keys => do
    match ← KvStore.listPop db key (!popRight) with
    | .ok (some value) => pure (some (key, value))
    | _ => tryFulfill db popRight keys

/-- `onPush`: the waiters that are left. -/
def onPush (db : Int) (key : Bytes) : List ListWaiter → StoreM F (List ListWaiter)
  | [] => pure []
  | w :: ws =>
    if w.db = db ∧ key ∈ w.keys then do
      match ← tryFulfill w.db w.popRight w.keys with
      | some _ => pure ws
      | none => (w :: ·) <$> onPush db key ws
    else (w :: ·) <$> onPush db key ws

namespace Commands

/-! ## Handlers -/

/-- LPUSH and RPUSH, before the waiters are told. -/
def push (command : String) (left : Bool) (db : Int) (args : List RespValue) : StoreM F RespValue :=
  if args.length < 3 ∨ nullAt args 1 then pure (wrongArity command)
  else withArg (strings (args.drop 2)) syntaxError fun values =>
    replyWith (KvStore.listPush db (strAt args 1) values left) .integer

/-- A push and what it does to the waiters. -/
def pushAndNotify (command : String) (left : Bool) (waiters : List ListWaiter) (db : Int)
    (args : List RespValue) : StoreM F (RespValue × List ListWaiter) := do
  let r ← push command left db args
  if r.isError then pure (r, waiters)
  else (fun ws => (r, ws)) <$> onPush db (strAt args 1) waiters

def lpush (waiters : List ListWaiter) (db : Int) (args : List RespValue) :
    StoreM F (RespValue × List ListWaiter) := pushAndNotify "lpush" true waiters db args

def rpush (waiters : List ListWaiter) (db : Int) (args : List RespValue) :
    StoreM F (RespValue × List ListWaiter) := pushAndNotify "rpush" false waiters db args

/-- The key loop of the blocking pops. -/
def popFirst (right : Bool) (db : Int) : List Bytes → StoreM F (Except Bytes (Option (Bytes × Bytes)))
  | [] => pure (.ok none)
  | key :: keys => do
    match ← KvStore.listPop db key (!right) with
    | .error e => pure (.error e)
    | .ok (some value) => pure (.ok (some (key, value)))
    | .ok none => popFirst right db keys

/-- The reply to a waiter that is woken; an empty key counts as nothing. -/
def wokenReply (r : Option (Bytes × Bytes)) : RespValue :=
  match r with
  | some (key, value) => if key.isEmpty then .nullBulk else bulkArray [key, value]
  | none => .nullBulk

def timeoutError : RespValue := .err "ERR timeout is not a float or out of range"

def tryBlockingPop (right : Bool) (db : Int) (args : List RespValue) : StoreM F RespValue :=
  if args.length < 3 then pure (wrongArity (if right then "brpop" else "blpop"))
  else withArg (strings (args.dropLast.drop 1)) syntaxError fun keys =>
    if keys.isEmpty ∨ nullAt args (args.length - 1) then pure syntaxError
    else withArg ((doubleAt (F := F) args (args.length - 1)).filter fun t =>
        !Platform.lt t Platform.zero) timeoutError fun timeout => do
      match ← popFirst right db keys with
      | .error e => pure (.error e)
      | .ok (some (key, value)) => pure (bulkArray [key, value])
      | .ok none =>
        if Platform.eq timeout Platform.zero then pure .nullBulk
        else .withEnv fun env => pure (wokenReply env.woken)

def blpop (db : Int) (args : List RespValue) : StoreM F RespValue := tryBlockingPop false db args

def brpop (db : Int) (args : List RespValue) : StoreM F RespValue := tryBlockingPop true db args

/-- The end of BRPOPLPUSH for a waiter that is woken. -/
def pushWoken (waiters : List ListWaiter) (db : Int) (dst : Bytes) (woken : Option (Bytes × Bytes)) :
    StoreM F (RespValue × List ListWaiter) :=
  match woken with
  | none => pure (.nullBulk, waiters)
  | some (_, value) =>
    if value.isEmpty then pure (.nullBulk, waiters)
    else do
      match ← KvStore.listPush db dst [value] true with
      | .error e => pure (.error e, waiters)
      | .ok _ => (fun ws => (.bulk value, ws)) <$> onPush db dst waiters

/-- BRPOPLPUSH, once its arguments are checked. -/
def moveOrWait (waiters : List ListWaiter) (db : Int) (src dst : Bytes) (timeout : F) :
    StoreM F (RespValue × List ListWaiter) := do
  match ← KvStore.listRPopLPush db src dst with
  | .error e => pure (.error e, waiters)
  | .ok (some value) => pure (.bulk value, waiters)
  | .ok none =>
    if Platform.eq timeout Platform.zero then pure (.nullBulk, waiters)
    else .withEnv fun env => pushWoken waiters db dst env.woken

def brpoplpush (waiters : List ListWaiter) (db : Int) (args : List RespValue) :
    StoreM F (RespValue × List ListWaiter) :=
  if args.length ≠ 4 ∨ nullAt args 1 ∨ nullAt args 2 ∨ nullAt args 3 then
    pure (wrongArity "brpoplpush", waiters)
  else
    match (prefixDoubleAt (F := F) args 3).filter fun t => !Platform.lt t Platform.zero with
    | none => pure (timeoutError, waiters)
    | some timeout => moveOrWait waiters db (strAt args 1) (strAt args 2) timeout

def pop (command : String) (left : Bool) (db : Int) (args : List RespValue) : StoreM F RespValue :=
  if args.length ≠ 2 ∨ nullAt args 1 then pure (wrongArity command)
  else replyWith (KvStore.listPop db (strAt args 1) left) bulkOrNull

def lpop (db : Int) (args : List RespValue) : StoreM F RespValue := pop "lpop" true db args

def rpop (db : Int) (args : List RespValue) : StoreM F RespValue := pop "rpop" false db args

def llen (db : Int) (args : List RespValue) : StoreM F RespValue :=
  if args.length ≠ 2 ∨ nullAt args 1 then pure (wrongArity "llen")
  else replyWith (KvStore.listLen db (strAt args 1)) fun n => .integer (n.getD 0)

def lrange (db : Int) (args : List RespValue) : StoreM F RespValue :=
  if args.length ≠ 4 ∨ nullAt args 1 ∨ nullAt args 2 ∨ nullAt args 3 then pure (wrongArity "lrange")
  else withArg (intAt args 2) notIntegerError fun start =>
    withArg (intAt args 3) notIntegerError fun stop =>
      replyWith (KvStore.listRange db (strAt args 1) start stop) bulkArray

def lindex (db : Int) (args : List RespValue) : StoreM F RespValue :=
  if args.length ≠ 3 ∨ nullAt args 1 ∨ nullAt args 2 then pure (wrongArity "lindex")
  else withArg (intAt args 2) notIntegerError fun index =>
    replyWith (KvStore.listIndex db (strAt args 1) index) bulkOrNull

def ltrim (db : Int) (args : List RespValue) : StoreM F RespValue :=
  if args.length ≠ 4 ∨ nullAt args 1 ∨ nullAt args 2 ∨ nullAt args 3 then pure (wrongArity "ltrim")
  else withArg (intAt args 2) notIntegerError fun start =>
    withArg (intAt args 3) notIntegerError fun stop =>
      replyWith (KvStore.listTrim db (strAt args 1) start stop) fun _ => .ok

def lset (db : Int) (args : List RespValue) : StoreM F RespValue :=
  if args.length ≠ 4 ∨ nullAt args 1 ∨ nullAt args 2 ∨ nullAt args 3 then pure (wrongArity "lset")
  else withArg (intAt args 2) notIntegerError fun index =>
    replyWith (KvStore.listSet db (strAt args 1) index (strAt args 3)) fun _ => .ok

def lrem (db : Int) (args : List RespValue) : StoreM F RespValue :=
  if args.length ≠ 4 ∨ nullAt args 1 ∨ nullAt args 2 ∨ nullAt args 3 then pure (wrongArity "lrem")
  else withArg (intAt args 2) notIntegerError fun count =>
    replyWith (KvStore.listRem db (strAt args 1) count (strAt args 3)) .integer

def rpoplpush (db : Int) (args : List RespValue) : StoreM F RespValue :=
  if args.length ≠ 3 ∨ nullAt args 1 ∨ nullAt args 2 then pure (wrongArity "rpoplpush")
  else replyWith (KvStore.listRPopLPush db (strAt args 1) (strAt args 2)) bulkOrNull

def linsert (db : Int) (args : List RespValue) : StoreM F RespValue :=
  if args.length ≠ 5 ∨ nullAt args 1 ∨ nullAt args 2 ∨ nullAt args 3 ∨ nullAt args 4 then
    pure (wrongArity "linsert")
  else if upperAt args 2 ≠ lit "BEFORE" ∧ upperAt args 2 ≠ lit "AFTER" then pure syntaxError
  else replyWith (KvStore.listInsert db (strAt args 1) (decide (upperAt args 2 = lit "BEFORE"))
    (strAt args 3) (strAt args 4)) .integer

/-! ## Lemmas -/

variable {lo hi db : Int} {args : List RespValue}

theorem reads_llen : Reads (llen db args : StoreM F _) := .check fun _ => .reply KvStore.reads_listLen

theorem reads_lrange : Reads (lrange db args : StoreM F _) :=
  .check fun _ => .withArg fun _ _ => .withArg fun _ _ => .reply KvStore.reads_listRange

theorem reads_lindex : Reads (lindex db args : StoreM F _) :=
  .check fun _ => .withArg fun _ _ => .reply KvStore.reads_listIndex

theorem steady_push {command : String} {left : Bool} :
    Steady lo hi (push command left db args : StoreM F _) :=
  .check fun _ => .withArg fun _ _ => .reply KvStore.det_listPush KvStore.fails_listPush fun _ => rfl

theorem steady_pop {command : String} {left : Bool} :
    Steady lo hi (pop command left db args : StoreM F _) :=
  .check fun _ => .reply det_onField KvStore.fails_listPop isError_bulkOrNull

theorem steady_ltrim : Steady lo hi (ltrim db args : StoreM F _) :=
  .check fun _ => .withArg fun _ _ => .withArg fun _ _ =>
    .reply det_onField KvStore.fails_listTrim fun _ => rfl

theorem steady_lset : Steady lo hi (lset db args : StoreM F _) :=
  .check fun _ => .withArg fun _ _ => .reply det_onField KvStore.fails_listSet fun _ => rfl

theorem steady_lrem : Steady lo hi (lrem db args : StoreM F _) :=
  .check fun _ => .withArg fun _ _ => .reply det_onField KvStore.fails_listRem fun _ => rfl

theorem steady_linsert : Steady lo hi (linsert db args : StoreM F _) :=
  .check fun _ => .check fun _ => .reply det_onField KvStore.fails_listInsert fun _ => rfl

theorem det_rpoplpush : Det lo hi (rpoplpush db args : StoreM F _) :=
  .ite (fun _ => .pure _) fun _ => .map KvStore.det_listRPopLPush

theorem fails_rpoplpush {env : Env} {s : KvStore F}
    (h : KvStore.CanMove env.now db (strAt args 1) (strAt args 2) s)
    (hq : IsErr (rpoplpush db args env s).1) : Same env.now s (rpoplpush db args env s).2 := by
  unfold rpoplpush at hq ⊢
  split at hq
  next hc => rw [if_pos hc]; exact Same.refl _ _
  next hc =>
    have hok := KvStore.listRPopLPush_ok h
    unfold replyWith at hq
    rw [StoreM.map_apply] at hq
    cases hr : (KvStore.listRPopLPush db (strAt args 1) (strAt args 2) env s).1 with
    | error e => exact absurd (by rw [hr]; trivial) hok
    | ok v =>
      rw [hr] at hq
      exact absurd hq (by simp [IsErr, replyTo, isError_bulkOrNull])

end Commands

end Kv
