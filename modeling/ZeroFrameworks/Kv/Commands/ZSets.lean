import ZeroFrameworks.Kv.Commands.Hashes
import ZeroFrameworks.Kv.Store.ZSets

/-!
# Sorted set commands

All of them come out the same when they are run again on the same contents.
-/

namespace Kv.Commands

variable {F : Type} [Platform F]

/-! ## Handlers -/

/-- The flags in front of the scores of ZADD, and the arguments after them. -/
def zaddFlags (opt : ZaddOptions) :
    List RespValue → Except RespValue (ZaddOptions × List RespValue)
  | [] => .ok (opt, [])
  | v :: rest =>
    if v.isNull then .error syntaxError
    else if upper v.str = lit "NX" then zaddFlags { opt with nx := true } rest
    else if upper v.str = lit "XX" then zaddFlags { opt with xx := true } rest
    else if upper v.str = lit "GT" then zaddFlags { opt with gt := true } rest
    else if upper v.str = lit "LT" then zaddFlags { opt with lt := true } rest
    else if upper v.str = lit "CH" then zaddFlags { opt with ch := true } rest
    else .ok (opt, v :: rest)

def scorePairs : List RespValue → Except RespValue (List (F × Bytes))
  | x :: y :: rest =>
    if x.isNull || y.isNull then .error syntaxError
    else
      match parseDoubleArg x with
      | none => .error notFloatError
      | some score => (scorePairs rest).map ((score, y.str) :: ·)
  | _ => .ok []

def zadd (db : Int) (args : List RespValue) : StoreM F RespValue :=
  if args.length < 4 ∨ nullAt args 1 then pure (wrongArity "zadd")
  else withParsed (zaddFlags {} (args.drop 2)) fun parsed =>
    if parsed.2.length % 2 ≠ 0 then pure syntaxError
    else withParsed (scorePairs parsed.2) fun members =>
      replyWith (KvStore.zaddOpt db (strAt args 1) parsed.1 members) .integer

def zrem (db : Int) (args : List RespValue) : StoreM F RespValue :=
  if args.length < 3 ∨ nullAt args 1 then pure (wrongArity "zrem")
  else withArg (strings (args.drop 2)) syntaxError fun members =>
    replyWith (KvStore.zrem db (strAt args 1) members) .integer

def zscore (db : Int) (args : List RespValue) : StoreM F RespValue :=
  if args.length ≠ 3 ∨ nullAt args 1 ∨ nullAt args 2 then pure (wrongArity "zscore")
  else replyWith (KvStore.zscore db (strAt args 1) (strAt args 2)) fun score =>
    bulkOrNull (score.map Platform.format)

def zcard (db : Int) (args : List RespValue) : StoreM F RespValue :=
  if args.length ≠ 2 ∨ nullAt args 1 then pure (wrongArity "zcard")
  else replyWith (KvStore.zcard db (strAt args 1)) fun n => .integer (n.getD 0)

/-- Members, each followed by its score when asked for. -/
def rankedReply (withScores : Bool) (items : List (Bytes × F)) : RespValue :=
  bulkArray (items.flatMap fun m => if withScores then [m.1, Platform.format m.2] else [m.1])

def dispatchZrange (reverse : Bool) (command : String) (db : Int) (args : List RespValue) :
    StoreM F RespValue :=
  if args.length < 4 ∨ nullAt args 1 ∨ nullAt args 2 ∨ nullAt args 3 then pure (wrongArity command)
  else withArg (intAt args 2) notIntegerError fun start =>
    withArg (intAt args 3) notIntegerError fun stop =>
      let withScores := decide (5 ≤ args.length) && !nullAt args 4 &&
        decide (upperAt args 4 = lit "WITHSCORES")
      replyWith (KvStore.zrange db (strAt args 1) start stop reverse) (rankedReply withScores)

def zrange (db : Int) (args : List RespValue) : StoreM F RespValue :=
  dispatchZrange false "zrange" db args

def zrevrange (db : Int) (args : List RespValue) : StoreM F RespValue :=
  dispatchZrange true "zrevrange" db args

def zincrby (db : Int) (args : List RespValue) : StoreM F RespValue :=
  if args.length ≠ 4 ∨ nullAt args 1 ∨ nullAt args 2 ∨ nullAt args 3 then pure (wrongArity "zincrby")
  else withArg (doubleAt args 2) notFloatError fun increment =>
    replyWith (KvStore.zincrby db (strAt args 1) (strAt args 3) increment) fun score =>
      .bulk (Platform.format score)

def rankCommand (reverse : Bool) (command : String) (db : Int) (args : List RespValue) :
    StoreM F RespValue :=
  if args.length ≠ 3 ∨ nullAt args 1 ∨ nullAt args 2 then pure (wrongArity command)
  else replyWith (KvStore.zrank db (strAt args 1) (strAt args 2) reverse) fun rank =>
    rank.elim .nullBulk .integer

def zrank (db : Int) (args : List RespValue) : StoreM F RespValue := rankCommand false "zrank" db args

def zrevrank (db : Int) (args : List RespValue) : StoreM F RespValue :=
  rankCommand true "zrevrank" db args

/-- The reply to ZPOPMIN and ZPOPMAX. -/
def popReply (r : Option (Bytes × F)) : RespValue :=
  bulkArray (r.elim [] fun m => [m.1, Platform.toString m.2])

def zpopmin (db : Int) (args : List RespValue) : StoreM F RespValue :=
  if args.length ≠ 2 ∨ nullAt args 1 then pure (wrongArity "zpopmin")
  else replyWith (KvStore.zpopmin db (strAt args 1)) popReply

def zpopmax (db : Int) (args : List RespValue) : StoreM F RespValue :=
  if args.length ≠ 2 ∨ nullAt args 1 then pure (wrongArity "zpopmax")
  else replyWith (KvStore.zpopmax db (strAt args 1)) popReply

structure RangeOptions where
  withScores : Bool := false
  offset : Int := 0
  count : Int := -1

/-- The option loop of `dispatchZrangeByScore`. -/
def parseRangeOptions (opt : RangeOptions) : List RespValue → Except RespValue RangeOptions
  | [] => .ok opt
  | v :: rest =>
    if v.isNull then .error syntaxError
    else if upper v.str = lit "WITHSCORES" then parseRangeOptions { opt with withScores := true } rest
    else if upper v.str = lit "LIMIT" then
      match rest with
      | x :: y :: rest =>
        match parseInt64Prefix x, parseInt64Prefix y with
        | some offset, some count =>
          parseRangeOptions { opt with offset := offset, count := count } rest
        | _, _ => .error syntaxError
      | _ => .error syntaxError
    else .error syntaxError

def dispatchZrangeByScore (reverse : Bool) (command : String) (db : Int) (args : List RespValue) :
    StoreM F RespValue :=
  if args.length < 4 ∨ nullAt args 1 ∨ nullAt args 2 ∨ nullAt args 3 then pure (wrongArity command)
  else withParsed (parseRangeOptions {} (args.drop 4)) fun opt =>
    replyWith (KvStore.zrangeByScore db (strAt args 1) (strAt args 2) (strAt args 3) reverse
      opt.offset opt.count) (rankedReply opt.withScores)

def zrangebyscore (db : Int) (args : List RespValue) : StoreM F RespValue :=
  dispatchZrangeByScore false "zrangebyscore" db args

def zrevrangebyscore (db : Int) (args : List RespValue) : StoreM F RespValue :=
  dispatchZrangeByScore true "zrevrangebyscore" db args

def zcount (db : Int) (args : List RespValue) : StoreM F RespValue :=
  if args.length ≠ 4 ∨ nullAt args 1 ∨ nullAt args 2 ∨ nullAt args 3 then pure (wrongArity "zcount")
  else replyWith (KvStore.zcount db (strAt args 1) (strAt args 2) (strAt args 3)) .integer

def zscan (db : Int) (args : List RespValue) : StoreM F RespValue :=
  dispatchCollectionScan "zscan" KvStore.zscan db args

/-! ## Lemmas -/

variable {lo hi db : Int} {args : List RespValue}

theorem reads_zscore : Reads (zscore db args : StoreM F _) :=
  .check fun _ => .reply KvStore.reads_zscore

theorem reads_zcard : Reads (zcard db args : StoreM F _) := .check fun _ => .reply KvStore.reads_zcard

variable {command : String} {reverse : Bool}

theorem reads_dispatchZrange :
    Reads (dispatchZrange reverse command db args : StoreM F _) :=
  .check fun _ => .withArg fun _ _ => .withArg fun _ _ => .reply KvStore.reads_zrange

theorem reads_rankCommand :
    Reads (rankCommand reverse command db args : StoreM F _) :=
  .check fun _ => .reply KvStore.reads_zrank

theorem reads_dispatchZrangeByScore :
    Reads (dispatchZrangeByScore reverse command db args : StoreM F _) :=
  .check fun _ => .withParsed fun _ _ => .reply KvStore.reads_zrangeByScore

theorem reads_zcount : Reads (zcount db args : StoreM F _) :=
  .check fun _ => .reply KvStore.reads_zcount

theorem reads_zscan : Reads (zscan db args : StoreM F _) :=
  reads_dispatchCollectionScan fun _ _ _ _ => KvStore.reads_zscan

theorem steady_zadd : Steady lo hi (zadd db args : StoreM F _) :=
  .check fun _ => .withParsed fun _ _ => .check fun _ => .withParsed fun _ _ =>
    .reply KvStore.det_zaddOpt KvStore.fails_zaddOpt fun _ => rfl

theorem steady_zrem : Steady lo hi (zrem db args : StoreM F _) :=
  .check fun _ => .withArg fun _ _ => .reply KvStore.det_zrem KvStore.fails_zrem fun _ => rfl

theorem steady_zincrby : Steady lo hi (zincrby db args : StoreM F _) :=
  .check fun _ => .withArg fun _ _ => .reply det_onField KvStore.fails_zincrby fun _ => rfl

theorem steady_zpopmin : Steady lo hi (zpopmin db args : StoreM F _) :=
  .check fun _ => .reply KvStore.det_zpopBest KvStore.fails_zpopBest fun _ => rfl

theorem steady_zpopmax : Steady lo hi (zpopmax db args : StoreM F _) :=
  .check fun _ => .reply KvStore.det_zpopBest KvStore.fails_zpopBest fun _ => rfl

end Kv.Commands
