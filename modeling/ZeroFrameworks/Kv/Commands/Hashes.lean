import ZeroFrameworks.Kv.Commands.Keys
import ZeroFrameworks.Kv.Store.Hashes

/-!
# Hash commands

HSET with one field takes a null argument for an empty string; HDEL with a null argument has
erased the fields before it when it reports the error.
-/

namespace Kv.Commands

variable {F : Type} [Platform F]

/-! ## Handlers -/

def hset (db : Int) (args : List RespValue) : StoreM F RespValue :=
  if args.length < 4 ∨ args.length % 2 ≠ 0 ∨ nullAt args 1 then pure (wrongArity "hset")
  else if args.length = 4 then
    replyWith (KvStore.hset db (strAt args 1) (strAt args 2) (strAt args 3)) .integer
  else withArg (stringPairs (args.drop 2)) syntaxError fun fields =>
    replyWith (KvStore.hsetFields db (strAt args 1) fields) .integer

def hget (db : Int) (args : List RespValue) : StoreM F RespValue :=
  if args.length ≠ 3 ∨ nullAt args 1 ∨ nullAt args 2 then pure (wrongArity "hget")
  else replyWith (KvStore.hget db (strAt args 1) (strAt args 2)) bulkOrNull

def hgetall (db : Int) (args : List RespValue) : StoreM F RespValue :=
  if args.length ≠ 2 ∨ nullAt args 1 then pure (wrongArity "hgetall")
  else replyWith (KvStore.hgetall db (strAt args 1)) fun fields =>
    bulkArray ((fields.getD []).flatMap fun f => [f.1, f.2])

/-- The loop of HDEL: fields before a null argument are erased. -/
def hdelLoop (db : Int) (key : Bytes) : List RespValue → Int → StoreM F RespValue
  | [], removed => pure (.integer removed)
  | v :: vs, removed =>
    if v.isNull then pure syntaxError
    else do
      match ← KvStore.hdel db key v.str with
      | .error e => pure (.error e)
      | .ok n => hdelLoop db key vs (removed + n)

def hdel (db : Int) (args : List RespValue) : StoreM F RespValue :=
  if args.length < 3 ∨ nullAt args 1 then pure (wrongArity "hdel")
  else hdelLoop db (strAt args 1) (args.drop 2) 0

def hexists (db : Int) (args : List RespValue) : StoreM F RespValue :=
  if args.length ≠ 3 ∨ nullAt args 1 ∨ nullAt args 2 then pure (wrongArity "hexists")
  else replyWith (KvStore.hexists db (strAt args 1) (strAt args 2)) fun b =>
    .integer (if b then 1 else 0)

def hlen (db : Int) (args : List RespValue) : StoreM F RespValue :=
  if args.length ≠ 2 ∨ nullAt args 1 then pure (wrongArity "hlen")
  else replyWith (KvStore.hlen db (strAt args 1)) fun n => .integer (n.getD 0)

def hmset (db : Int) (args : List RespValue) : StoreM F RespValue :=
  if args.length < 4 ∨ args.length % 2 ≠ 0 ∨ nullAt args 1 then pure (wrongArity "hmset")
  else withArg (stringPairs (args.drop 2)) syntaxError fun fields =>
    replyWith (KvStore.hmset db (strAt args 1) fields) fun _ => .ok

def hmget (db : Int) (args : List RespValue) : StoreM F RespValue :=
  if args.length < 3 ∨ nullAt args 1 then pure (wrongArity "hmget")
  else withArg (strings (args.drop 2)) syntaxError fun fields =>
    replyWith (KvStore.hmget db (strAt args 1) fields) fun values => .array (values.map bulkOrNull)

def hkeys (db : Int) (args : List RespValue) : StoreM F RespValue :=
  if args.length ≠ 2 ∨ nullAt args 1 then pure (wrongArity "hkeys")
  else replyWith (KvStore.hkeys db (strAt args 1)) bulkArray

def hvals (db : Int) (args : List RespValue) : StoreM F RespValue :=
  if args.length ≠ 2 ∨ nullAt args 1 then pure (wrongArity "hvals")
  else replyWith (KvStore.hvals db (strAt args 1)) bulkArray

def hincrby (db : Int) (args : List RespValue) : StoreM F RespValue :=
  if args.length ≠ 4 ∨ nullAt args 1 ∨ nullAt args 2 ∨ nullAt args 3 then pure (wrongArity "hincrby")
  else withArg (intAt args 3) notIntegerError fun delta =>
    replyWith (KvStore.hincrby db (strAt args 1) (strAt args 2) delta) .integer

def hsetnx (db : Int) (args : List RespValue) : StoreM F RespValue :=
  if args.length ≠ 4 ∨ nullAt args 1 ∨ nullAt args 2 ∨ nullAt args 3 then pure (wrongArity "hsetnx")
  else replyWith (KvStore.hsetnx db (strAt args 1) (strAt args 2) (strAt args 3)) fun b =>
    .integer (if b then 1 else 0)

/-- `dispatchCollectionScan`, for the scan operation `op`. -/
def dispatchCollectionScan (command : String)
    (op : Int → Bytes → Nat → Bytes → Int → StoreM F (Except Bytes (Nat × List Bytes))) (db : Int)
    (args : List RespValue) : StoreM F RespValue :=
  if args.length < 3 ∨ nullAt args 1 ∨ nullAt args 2 then pure (wrongArity command)
  else withArg ((prefixIntAt args 2).filter (0 ≤ ·)) (.err "ERR invalid cursor") fun cursor =>
    withParsed (parseScanOptions parseInt64Prefix {} (args.drop 3)) fun opt =>
      replyWith (op db (strAt args 1) cursor.toNat opt.pattern (i32 opt.count)) scanReply

def hscan (db : Int) (args : List RespValue) : StoreM F RespValue :=
  dispatchCollectionScan "hscan" KvStore.hscan db args

/-! ## Lemmas -/

variable {lo hi db : Int} {args : List RespValue}

theorem reads_hget : Reads (hget db args : StoreM F _) := .check fun _ => .reply KvStore.reads_hget

theorem reads_hgetall : Reads (hgetall db args : StoreM F _) :=
  .check fun _ => .reply KvStore.reads_hgetall

theorem reads_hexists : Reads (hexists db args : StoreM F _) :=
  .check fun _ => .reply KvStore.reads_hexists

theorem reads_hlen : Reads (hlen db args : StoreM F _) := .check fun _ => .reply KvStore.reads_hlen

theorem reads_hmget : Reads (hmget db args : StoreM F _) :=
  .check fun _ => .withArg fun _ _ => .reply KvStore.reads_hmget

theorem reads_hkeys : Reads (hkeys db args : StoreM F _) :=
  .check fun _ => .reply (.map KvStore.reads_hgetall fun _ _ => trivial)

theorem reads_hvals : Reads (hvals db args : StoreM F _) :=
  .check fun _ => .reply (.map KvStore.reads_hgetall fun _ _ => trivial)

theorem reads_dispatchCollectionScan {command : String}
    {op : Int → Bytes → Nat → Bytes → Int → StoreM F (Except Bytes (Nat × List Bytes))}
    (h : ∀ key cursor pattern count, Reads (op db key cursor pattern count)) :
    Reads (dispatchCollectionScan command op db args) :=
  .check fun _ => .withArg fun _ _ => .withParsed fun _ _ => .reply (h _ _ _ _)

theorem reads_hscan : Reads (hscan db args : StoreM F _) :=
  reads_dispatchCollectionScan fun _ _ _ _ => KvStore.reads_hscan

theorem steady_hset : Steady lo hi (hset db args : StoreM F _) :=
  .check fun _ => .ite (fun _ => .reply det_onField KvStore.fails_hset fun _ => rfl) fun _ =>
    .withArg fun _ _ => .reply KvStore.det_hsetFields KvStore.fails_hsetFields fun _ => rfl

theorem steady_hmset : Steady lo hi (hmset db args : StoreM F _) :=
  .check fun _ => .withArg fun _ _ => .reply KvStore.det_hmset KvStore.fails_hmset fun _ => rfl

theorem steady_hincrby : Steady lo hi (hincrby db args : StoreM F _) :=
  .check fun _ => .withArg fun _ _ => .reply KvStore.det_hincrby KvStore.fails_hincrby fun _ => rfl

theorem steady_hsetnx : Steady lo hi (hsetnx db args : StoreM F _) :=
  .check fun _ => .reply KvStore.det_hsetnx KvStore.fails_hsetnx fun _ => rfl

theorem det_hdelLoop {key : Bytes} {vs : List RespValue} {removed : Int} :
    Det lo hi (hdelLoop db key vs removed : StoreM F _) := by
  induction vs generalizing removed with
  | nil => exact .pure _
  | cons v vs ih =>
    refine .ite (fun _ => .pure _) fun _ => .bind det_onField ?_
    rintro (e | n)
    · exact .pure _
    · exact ih

/-- Once a field was erased the key is a hash, or gone: later fields are not refused. -/
theorem hdelLoop_ok {key : Bytes} {vs : List RespValue} (hv : (strings vs).isSome) {env : Env}
    {s : KvStore F} (h : HasType .hash env.now db key s) (removed : Int) :
    (hdelLoop db key vs removed env s).1.isError = false := by
  induction vs generalizing s removed with
  | nil => rfl
  | cons v vs ih =>
    unfold strings at hv
    split at hv
    · cases hv
    next hnull =>
      rw [Option.isSome_map] at hv
      unfold hdelLoop
      rw [if_neg hnull]
      have hok : ∃ n, (KvStore.hdel db key v.str env s).1 = .ok n := by
        unfold KvStore.hdel
        rw [onField_reply h]
        cases (s.live env.now db key).map fun o => (Field.hash : Field F _).get o.toObj with
        | none => exact ⟨_, rfl⟩
        | some m => exact ⟨_, rfl⟩
      obtain ⟨n, hn⟩ := hok
      simp only [StoreM.bind_apply, hn]
      exact ih hv (h.onField _) _

theorem steady_hdel (h : (strings (args.drop 2)).isSome) : Steady lo hi (hdel db args : StoreM F _) := by
  refine .check fun _ => ⟨det_hdelLoop, fun env s hi hq => ?_⟩
  by_cases ht : HasType .hash env.now db (strAt args 1) s
  · exact absurd hq (by simp [IsErr, hdelLoop_ok h ht])
  · revert hq
    cases hvs : args.drop 2 with
    | nil => exact fun _ => Same.refl _ _
    | cons v vs =>
      intro hq
      unfold hdelLoop at hq ⊢
      split at hq
      next hnull => rw [if_pos hnull]; exact Same.refl _ _
      next hnull =>
        rw [if_neg hnull]
        have hr : (KvStore.hdel db (strAt args 1) v.str env s).1 = .error wrongType :=
          onField_refused ht _
        simp only [StoreM.bind_apply, hr]
        exact KvStore.fails_hdel (I := StoreConf.NoEvict) env s hi (by rw [hr]; trivial)

end Kv.Commands
