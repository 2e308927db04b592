import ZeroFrameworks.Kv.Commands.Args
import ZeroFrameworks.Kv.Store.Streams

/-!
# Stream commands

XADD with `*` takes its id from the clock, XCLAIM stamps deliveries with it.  XADD with any other
id fails, and leaves an empty stream behind where there was no key (`fails_xadd`).  XREADGROUP
moves the group on, though it is a read by name.
-/

namespace Kv.Commands

variable {F : Type} [Platform F]

/-! ## Handlers -/

def xadd (db : Int) (args : List RespValue) : StoreM F RespValue :=
  if args.length < 4 ∨ nullAt args 1 ∨ nullAt args 2 then pure (wrongArity "xadd")
  else if (args.length - 3) % 2 ≠ 0 then pure syntaxError
  else withArg (stringPairs (args.drop 3)) syntaxError fun fields =>
    replyWith (KvStore.xadd db (strAt args 1) (strAt args 2) fields) .bulk

def xlen (db : Int) (args : List RespValue) : StoreM F RespValue :=
  if args.length ≠ 2 ∨ nullAt args 1 then pure (wrongArity "xlen")
  else replyWith (KvStore.xlen db (strAt args 1)) fun n => .integer (n.getD 0)

/-- `encodeStreamEntries`: the fields in increasing order. -/
def encodeStreamEntries (entries : List StreamEntry) : RespValue :=
  .array (entries.map fun e => bulkArray (e.id :: e.fields.toList.flatMap fun f => [f.1, f.2]))

def rangeCommand (reverse : Bool) (command : String) (db : Int) (args : List RespValue) :
    StoreM F RespValue :=
  if args.length < 4 ∨ nullAt args 1 ∨ nullAt args 2 ∨ nullAt args 3 then pure (wrongArity command)
  else withArg (if 5 ≤ args.length then intAt args 4 else some (-1)) notIntegerError fun count =>
    replyWith (KvStore.xrange db (strAt args 1) (strAt args 2) (strAt args 3) count reverse)
      encodeStreamEntries

def xrange (db : Int) (args : List RespValue) : StoreM F RespValue := rangeCommand false "xrange" db args

def xrevrange (db : Int) (args : List RespValue) : StoreM F RespValue :=
  rangeCommand true "xrevrange" db args

/-- The reply to XREAD and XREADGROUP. -/
def streamsReply (r : List (Bytes × List StreamEntry)) : RespValue :=
  .array (r.map fun item => .array [.bulk item.1, encodeStreamEntries item.2])

/-- COUNT of XREAD, and the place where STREAMS is to stand. -/
def xreadCount (args : List RespValue) : Option (Int × Nat) :=
  if (args[1]?.bind RespValue.asBulk).isSome && decide (upperAt args 1 = lit "COUNT") then
    if args.length < 5 then none else (intAt args 2).map fun count => (count, 3)
  else some (-1, 1)

def xread (db : Int) (args : List RespValue) : StoreM F RespValue :=
  if args.length < 4 then pure (wrongArity "xread")
  else withArg (xreadCount args) syntaxError fun parsed =>
    let start := parsed.2
    if args.length < start + 2 ∨ nullAt args start ∨ upperAt args start ≠ lit "STREAMS" then
      pure syntaxError
    else
      let mid := (args.length - start - 1) / 2 + start
      if mid ≤ start ∨ args.length ≤ mid then pure syntaxError
      else withArg (strings ((args.take mid).drop (start + 1))) syntaxError fun keys =>
        withArg (strings (args.drop mid)) syntaxError fun ids =>
          replyWith (KvStore.xread db keys ids parsed.1) streamsReply

def xdel (db : Int) (args : List RespValue) : StoreM F RespValue :=
  if args.length < 3 ∨ nullAt args 1 then pure (wrongArity "xdel")
  else withArg (strings (args.drop 2)) syntaxError fun ids =>
    replyWith (KvStore.xdel db (strAt args 1) ids) .integer

def xgroup (db : Int) (args : List RespValue) : StoreM F RespValue :=
  if args.length < 4 ∨ nullAt args 1 ∨ nullAt args 2 ∨ nullAt args 3 then pure (wrongArity "xgroup")
  else if upperAt args 1 = lit "CREATE" then
    let mkstream := decide (5 ≤ args.length) && !nullAt args 4 &&
      decide (upperAt args 4 = lit "MKSTREAM")
    let idAt := if mkstream then 5 else 4
    if args.length ≤ idAt ∨ nullAt args idAt then pure syntaxError
    else replyWith (KvStore.xgroupCreate db (strAt args 2) (strAt args 3) (strAt args idAt) mkstream)
      fun _ => .ok
  else if upperAt args 1 = lit "DESTROY" then
    replyWith (KvStore.xgroupDestroy db (strAt args 2) (strAt args 3)) fun _ => .ok
  else pure (.err "ERR unknown XGROUP subcommand")

/-- COUNT of XREADGROUP, and the place where STREAMS is to stand. -/
def xreadgroupCount (args : List RespValue) : Option (Int × Nat) :=
  if 5 < args.length ∧ upperAt args 4 = lit "COUNT" then
    if args.length < 7 then none else (intAt args 5).map fun count => (count, 6)
  else some (-1, 4)

/-- The keys and ids are taken as they come, null ones as empty strings. -/
def xreadgroup (db : Int) (args : List RespValue) : StoreM F RespValue :=
  if args.length < 6 then pure (wrongArity "xreadgroup")
  else if upperAt args 1 ≠ lit "GROUP" ∨ nullAt args 2 ∨ nullAt args 3 then pure syntaxError
  else withArg (xreadgroupCount args) syntaxError fun parsed =>
    let start := parsed.2
    if args.length ≤ start ∨ upperAt args start ≠ lit "STREAMS" then pure syntaxError
    else
      let mid := start + 1 + (args.length - start - 1) / 2
      let keys := ((args.take mid).drop (start + 1)).map RespValue.str
      let ids := (args.drop mid).map RespValue.str
      replyWith (KvStore.xreadGroup db (strAt args 2) (strAt args 3) keys ids parsed.1) streamsReply

def xack (db : Int) (args : List RespValue) : StoreM F RespValue :=
  if args.length < 4 ∨ nullAt args 1 ∨ nullAt args 2 then pure (wrongArity "xack")
  else withArg (strings (args.drop 3)) syntaxError fun ids =>
    replyWith (KvStore.xack db (strAt args 1) (strAt args 2) ids) .integer

def xtrim (db : Int) (args : List RespValue) : StoreM F RespValue :=
  if args.length < 4 ∨ nullAt args 1 ∨ nullAt args 2 ∨ nullAt args 3 then pure (wrongArity "xtrim")
  else if upperAt args 2 ≠ lit "MAXLEN" then pure syntaxError
  else withArg (prefixIntAt args (if upperAt args 3 = lit "~" then 4 else 3)) syntaxError
    fun maxlen => replyWith (KvStore.xtrim db (strAt args 1) maxlen) .integer

def idOrZero (id : Bytes) : RespValue := .bulk (if id.isEmpty then lit "0-0" else id)

def summaryReply (r : XPendingSummary) : RespValue :=
  .array [.integer r.count, idOrZero r.minId, idOrZero r.maxId,
    .array (r.consumers.map fun c => .array [.bulk c.1, .integer c.2])]

def detailsReply (r : List XPendingDetail) : RespValue :=
  .array (r.map fun d =>
    .array [.bulk d.id, .bulk d.consumer, .integer d.idleMs, .integer d.deliveryCount])

/-- XPENDING with four or five arguments answers as with three. -/
def xpending (db : Int) (args : List RespValue) : StoreM F RespValue :=
  if args.length < 3 ∨ nullAt args 1 ∨ nullAt args 2 then pure (wrongArity "xpending")
  else if 6 ≤ args.length then
    let idx := if !nullAt args 3 && decide (strAt args 3 = lit "-") then 4 else 3
    let count := (prefixIntAt args (idx + 1)).getD 10
    let only := if nullAt args (idx + 2) then [] else strAt args (idx + 2)
    let start := if nullAt args 3 then lit "-" else strAt args 3
    let stop := if nullAt args 4 then lit "+" else strAt args 4
    replyWith (KvStore.xpendingRange db (strAt args 1) (strAt args 2) start stop count only) detailsReply
  else replyWith (KvStore.xpendingSummary db (strAt args 1) (strAt args 2)) summaryReply

def xclaim (db : Int) (args : List RespValue) : StoreM F RespValue :=
  if args.length < 6 ∨ nullAt args 1 ∨ nullAt args 2 ∨ nullAt args 3 ∨ nullAt args 4 then
    pure (wrongArity "xclaim")
  else withArg (prefixIntAt args 4) notIntegerError fun minIdle =>
    withArg (strings (args.drop 5)) syntaxError fun rest =>
      let force := rest.any fun s => decide (upper s = lit "FORCE")
      let ids := rest.filter fun s => decide (upper s ≠ lit "FORCE")
      replyWith (KvStore.xclaim db (strAt args 1) (strAt args 2) (strAt args 3) minIdle ids force)
        fun claimed => .array (claimed.map fun e =>
          .array [.bulk e.id, bulkArray (e.fields.toList.flatMap fun f => [f.1, f.2])])

/-! ## Lemmas -/

variable {lo hi db : Int} {args : List RespValue}

theorem reads_xlen : Reads (xlen db args : StoreM F _) := .check fun _ => .reply KvStore.reads_xlen

theorem reads_rangeCommand {reverse : Bool} {command : String} :
    Reads (rangeCommand reverse command db args : StoreM F _) :=
  .check fun _ => .withArg fun _ _ => .reply KvStore.reads_xrange

theorem reads_xread : Reads (xread db args : StoreM F _) :=
  .check fun _ => .withArg fun _ _ => .check fun _ => .check fun _ => .withArg fun _ _ =>
    .withArg fun _ _ => .reply KvStore.reads_xread

theorem reads_xpending : Reads (xpending db args : StoreM F _) :=
  .check fun _ => .ite (fun _ => .reply KvStore.reads_xpendingRange) fun _ =>
    .reply KvStore.reads_xpendingSummary

theorem steady_xdel : Steady lo hi (xdel db args : StoreM F _) :=
  .check fun _ => .withArg fun _ _ => .reply det_onField KvStore.fails_xdel fun _ => rfl

theorem steady_xgroup : Steady lo hi (xgroup db args : StoreM F _) :=
  .check fun _ => .ite
    (fun _ => .check fun _ => .reply det_onField KvStore.fails_xgroupCreate fun _ => rfl) fun _ =>
      .ite (fun _ => .reply det_onFieldOr KvStore.fails_xgroupDestroy fun _ => rfl) fun _ => .pure _

theorem steady_xack : Steady lo hi (xack db args : StoreM F _) :=
  .check fun _ => .withArg fun _ _ =>
    .reply KvStore.det_onGroup (KvStore.fails_onGroup fun _ _ h => h) fun _ => rfl

theorem steady_xtrim : Steady lo hi (xtrim db args : StoreM F _) :=
  .check fun _ => .check fun _ => .withArg fun _ _ =>
    .reply KvStore.det_xtrim KvStore.fails_xtrim fun _ => rfl

theorem det_xadd (h : strAt args 2 = lit "*" → lo = hi) : Det lo hi (xadd db args : StoreM F _) := by
  refine .ite (fun _ => .pure _) fun _ => .ite (fun _ => .pure _) fun _ => ?_
  unfold withArg
  split
  · exact .pure _
  · exact .map (KvStore.det_xadd h)

theorem fails_xadd {env : Env} {s : KvStore F} (hn : s.conf.NoEvict)
    (h : strAt args 2 = lit "*" ∨ s.live env.now db (strAt args 1) ≠ none)
    (hq : IsErr (xadd db args env s).1) : Same env.now s (xadd db args env s).2 := by
  unfold xadd at hq ⊢
  split at hq
  next hc => rw [if_pos hc]; exact Same.refl _ _
  next hc =>
    rw [if_neg hc]
    split at hq
    next hc' => rw [if_pos hc']; exact Same.refl _ _
    next hc' =>
      rw [if_neg hc']
      cases hf : stringPairs (args.drop 3) with
      | none => exact Same.refl _ _
      | some fields =>
        rw [hf] at hq
        refine KvStore.fails_xadd hn h ?_
        simp only [withArg, replyWith, StoreM.map_apply] at hq
        cases hr : (KvStore.xadd db (strAt args 1) (strAt args 2) fields env s).1 with
        | error e => trivial
        | ok v =>
          rw [hr] at hq
          exact absurd hq (by simp [IsErr, replyTo, RespValue.isError])

end Kv.Commands
