import ZeroFrameworks.Kv.Server.Lookup

/-!
# What commands leave alone

`Leaves` is what a run that writes nothing can do: the store holds what it held, the log and the
waiters are as they were, the selected database stays, and the queue of a transaction stays or is
emptied.  It holds of every command that is not mutating by name, apart from the blocking pops,
XREADGROUP, scripts and EXEC:

    c.reader → Leaves (handleQueued c)   (leaves_of_reader)
    EXEC on a queue of such commands   (Idle.exec)

TTL and PTTL erase a key whose deadline is negative; they leave stores without such keys alone.
-/

namespace Kv

variable {F : Type} [Platform F]

/-! ## Runs that write nothing -/

/-- What a run that writes nothing can do. -/
structure Leaves (now : Int) (ctx : KvContext) (sv : Server F)
    (r : RespValue × KvContext × Server F) : Prop where
  items : SameItems now sv.store r.2.2.store
  waiters : r.2.2.waiters = sv.waiters
  data : r.2.2.aof.data = sv.aof.data
  enabled : r.2.2.aof.enabled = sv.aof.enabled
  db : r.2.1.db = ctx.db
  queue : r.2.1.multiQueue = ctx.multiQueue ∨ r.2.1.multiQueue = []

section

variable {env : Env} {args : List RespValue} {ctx : KvContext} {sv : Server F}

namespace Leaves

theorem reply (rsp : RespValue) : Leaves env.now ctx sv (rsp, ctx, sv) :=
  ⟨.refl _ _, rfl, rfl, rfl, rfl, .inl rfl⟩

theorem onStore {α : Type} {m : StoreM F α} (h : Reads m) (rsp : α → RespValue) :
    Leaves env.now ctx sv (rsp (sv.onStore m env).1, ctx, (sv.onStore m env).2) :=
  ⟨(h env sv.store trivial trivial).item, rfl, rfl, rfl, rfl, .inl rfl⟩

theorem trans {ctx' : KvContext} {sv' : Server F} {rsp : RespValue}
    {r : RespValue × KvContext × Server F} (h : Leaves env.now ctx sv (rsp, ctx', sv'))
    (h' : Leaves env.now ctx' sv' r) : Leaves env.now ctx sv r where
  items := h.items.trans h'.items
  waiters := h'.waiters.trans h.waiters
  data := h'.data.trans h.data
  enabled := h'.enabled.trans h.enabled
  db := h'.db.trans h.db
  queue := h'.queue.elim (fun hq => hq ▸ h.queue) .inr

end Leaves

theorem reads_watchToken {db : Int} {key : Bytes} : Reads (KvStore.watchToken db key : StoreM F _) := by
  intro env s _ _
  refine .of_item rfl fun db' key' => ?_
  unfold KvStore.item KvStore.entry KvStore.dbMap KvStore.watchToken KvStore.setShard
  simp only
  by_cases hi : shardIdx F key' = shardIdx F key
  · rw [hi, Function.update_self]
  · rw [Function.update_of_ne hi]

theorem reads_watchConflict (ws : List WatchEntry) :
    Reads (Commands.watchConflict ws : StoreM F _) := by
  induction ws with
  | nil => exact .pure _
  | cons w ws ih =>
    unfold Commands.watchConflict
    exact .bind reads_watchToken fun token => .ite (fun _ => .pure _) fun _ => ih

theorem reads_buildInfoText {db : Int} {r : Replication} :
    Reads (Commands.buildInfoText db r : StoreM F _) :=
  .bind KvStore.reads_dbsize fun _ => .bind KvStore.reads_expireCount fun _ env s _ _ =>
    Same.refl env.now s

theorem leaves_ite {c : Prop} [Decidable c] {p q : RespValue × Server F}
    (hp : Leaves env.now ctx sv (p.1, ctx, p.2)) (hq : Leaves env.now ctx sv (q.1, ctx, q.2)) :
    Leaves env.now ctx sv ((if c then p else q).1, ctx, (if c then p else q).2) := by
  split
  · exact hp
  · exact hq

theorem leaves_configSet : Leaves env.now ctx sv
    ((Commands.configSet args sv).1, ctx, (Commands.configSet args sv).2) := by
  unfold Commands.configSet Commands.configSetKey
  repeat' apply leaves_ite
  all_goals exact ⟨.of_item rfl, rfl, rfl, rfl, rfl, .inl rfl⟩

theorem leaves_config : Leaves env.now ctx sv (Commands.config env args ctx sv) := by
  unfold Commands.config
  repeat' split
  · exact .reply _
  · exact .reply _
  · exact leaves_configSet
  · exact .reply _

theorem leaves_watchLoop (vs : List RespValue) :
    Leaves env.now ctx sv (Commands.watchLoop env ctx sv vs) := by
  induction vs generalizing ctx sv with
  | nil => exact .reply _
  | cons v vs ih =>
    unfold Commands.watchLoop
    split
    · exact .reply _
    · have hr : Reads (KvStore.watchToken ctx.db v.str : StoreM F _) := reads_watchToken
      have h : ∀ watched, Leaves env.now ctx sv (RespValue.ok, { ctx with watched := watched },
          (sv.onStore (KvStore.watchToken ctx.db v.str) env).2) := fun watched =>
        ⟨(hr env sv.store trivial trivial).item, rfl, rfl, rfl, rfl, .inl rfl⟩
      exact (h _).trans ih

theorem deliver_spec (sv : Server F) (xs : List (Nat × RespValue)) :
    ∃ sessions, (Commands.deliver sv xs).2 = { sv with sessions := sessions } := by
  induction xs generalizing sv with
  | nil => exact ⟨sv.sessions, rfl⟩
  | cons x xs ih =>
    obtain ⟨sessions, h⟩ := ih (sv.onSession x.1 fun _ =>
      ((sv.sessions x.1).pushPubSubMessage x.2).2)
    exact ⟨sessions, h⟩

theorem leaves_publish : Leaves env.now ctx sv (Commands.publish env args ctx sv) := by
  unfold Commands.publish
  split
  · exact .reply _
  · split
    · exact .reply _
    · obtain ⟨sessions, h⟩ :=
        deliver_spec sv (sv.pubsub.deliveries env.order (strAt args 1) (strAt args 2))
      simp only [h]
      exact ⟨.of_item rfl, rfl, rfl, rfl, rfl, .inl rfl⟩

theorem leaves_answerPsync {session : Nat} (result : Commands.PsyncResult) :
    Leaves env.now ctx sv (Commands.answerPsync session ctx sv result) := by
  cases result with
  | refused line => exact .reply _
  | full line payload => exact ⟨.of_item rfl, rfl, rfl, rfl, rfl, .inl rfl⟩
  | continued line payload =>
    dsimp only [Commands.answerPsync]
    split <;> exact ⟨.of_item rfl, rfl, rfl, rfl, rfl, .inl rfl⟩

theorem leaves_psync : Leaves env.now ctx sv (Commands.psync env args ctx sv) := by
  dsimp only [Commands.psync]
  repeat' split
  · exact .reply _
  · exact .reply _
  · exact .reply _
  · exact leaves_answerPsync _

theorem leaves_handleServer {c : ServerCommand} (h : c ≠ .select) :
    Leaves env.now ctx sv (handleServer c env args ctx sv) := by
  cases c
  case select => exact absurd rfl h
  case config => exact leaves_config
  case info => exact .onStore reads_buildInfoText RespValue.bulk
  case watch =>
    dsimp only [handleServer, Commands.watch]
    split
    · exact .reply _
    · exact leaves_watchLoop _
  case publish => exact leaves_publish
  case psync => exact leaves_psync
  case multi | discard =>
    simp only [handleServer, Commands.multi, Commands.discard]
    repeat' split
    all_goals exact ⟨.of_item rfl, rfl, rfl, rfl, rfl, by simp [Commands.endMulti]⟩
  all_goals
    simp only [handleServer, Commands.ping, Commands.echo, Commands.unwatch, Commands.role,
      Commands.slaveof, Commands.save, Commands.lastsave, Commands.bgrewriteaof, Commands.subscribe,
      Commands.psubscribe, Commands.subscribeCommand, Commands.unsubscribe, Commands.punsubscribe,
      Commands.leavePubsub, Commands.auth, Commands.bgsave, Commands.client, Commands.quit,
      Commands.script, Commands.time, Commands.shutdown, Commands.slowlog]
    repeat' split
    all_goals exact ⟨.of_item rfl, rfl, rfl, rfl, rfl, .inl rfl⟩

theorem leaves_runStore {c : StoreCommand} (h : Reads (handleStore c ctx.db args : StoreM F _)) :
    Leaves env.now ctx sv (runStore c env args ctx sv) := .onStore h id

theorem leaves_ttl {lo hi : Int} {c : StoreCommand} (hc : c = .ttl ∨ c = .pttl)
    (hq : Quiet lo hi sv.store) : Leaves env.now ctx sv (runStore c env args ctx sv) := by
  rcases hc with rfl | rfl
  · exact ⟨(Commands.same_ttl hq).item, rfl, rfl, rfl, rfl, .inl rfl⟩
  · exact ⟨(Commands.same_pttl hq).item, rfl, rfl, rfl, rfl, .inl rfl⟩

/-- Every store command that is neither mutating nor indirect, TTL and PTTL apart. -/
theorem reads_handleStore {db : Int} {c : StoreCommand} (hm : (Command.store c).mutating = false)
    (hi : (Command.store c).indirect = false) (ht : c ≠ .ttl) (hp : c ≠ .pttl) :
    Reads (handleStore c db args : StoreM F _) := by
  cases c
  case ttl => exact absurd rfl ht
  case pttl => exact absurd rfl hp
  case blpop | brpop | xreadgroup => cases hi
  case dbsize => exact Commands.reads_dbsize
  case type => exact Commands.reads_type
  case keys => exact Commands.reads_keys
  case scan => exact Commands.reads_scan
  case get => exact Commands.reads_get
  case exist => exact Commands.reads_exist
  case mget => exact Commands.reads_mget
  case hget => exact Commands.reads_hget
  case hgetall => exact Commands.reads_hgetall
  case hexists => exact Commands.reads_hexists
  case hlen => exact Commands.reads_hlen
  case hmget => exact Commands.reads_hmget
  case hkeys => exact Commands.reads_hkeys
  case hvals => exact Commands.reads_hvals
  case llen => exact Commands.reads_llen
  case lrange => exact Commands.reads_lrange
  case smembers => exact Commands.reads_smembers
  case scard => exact Commands.reads_scard
  case sismember => exact Commands.reads_sismember
  case zscore => exact Commands.reads_zscore
  case zcard => exact Commands.reads_zcard
  case zrange | zrevrange => exact Commands.reads_dispatchZrange
  case zrank | zrevrank => exact Commands.reads_rankCommand
  case strlen => exact Commands.reads_strlen
  case lindex => exact Commands.reads_lindex
  case sinter => exact Commands.reads_sinter
  case sunion => exact Commands.reads_sunion
  case sdiff => exact Commands.reads_sdiff
  case xlen => exact Commands.reads_xlen
  case xrange | xrevrange => exact Commands.reads_rangeCommand
  case xread => exact Commands.reads_xread
  case zrangebyscore | zrevrangebyscore => exact Commands.reads_dispatchZrangeByScore
  case zcount => exact Commands.reads_zcount
  case hscan => exact Commands.reads_hscan
  case sscan => exact Commands.reads_sscan
  case zscan => exact Commands.reads_zscan
  case xpending => exact Commands.reads_xpending
  case dump => exact Commands.reads_dump
  all_goals cases hm

/-- Commands that write nothing, whatever the store. -/
def Command.reader (c : Command) : Bool :=
  !c.mutating && !c.indirect && c != .store .ttl && c != .store .pttl && c != .exec

variable {c : Command}

theorem leaves_of_reader (h : c.reader = true) :
    Leaves env.now ctx sv (handleQueued c env args ctx sv) := by
  simp only [Command.reader, Bool.and_eq_true, Bool.not_eq_true', bne_iff_ne, ne_eq] at h
  obtain ⟨⟨⟨⟨hm, hi⟩, ht⟩, hp⟩, he⟩ := h
  cases c with
  | store c =>
    exact leaves_runStore (reads_handleStore hm hi (fun h => ht (h ▸ rfl)) (fun h => hp (h ▸ rfl)))
  | push c =>
    cases c with
    | lpush | rpush => cases hm
    | brpoplpush => cases hi
  | server c => exact leaves_handleServer fun h => by rw [h] at hm; cases hm
  | eval => cases hi
  | evalsha => cases hi
  | exec => exact absurd rfl he

theorem handle_eq_handleQueued (h : c ≠ .exec) :
    (handle c : Handler F) = handleQueued c := by
  cases c
  case exec => exact absurd rfl h
  all_goals rfl

/-- Commands that write nothing to stores without negative deadlines, EXEC included when all
it runs are such commands. -/
def Command.harmless (c : Command) : Bool := !c.mutating && !c.indirect

theorem leaves_of_harmless {lo hi : Int} (h : c.harmless = true)
    (hq : Quiet lo hi sv.store) : Leaves env.now ctx sv (handleQueued c env args ctx sv) := by
  by_cases hx : c = .exec
  · subst hx
    exact .reply _
  by_cases ht : c = .store .ttl ∨ c = .store .pttl
  · rcases ht with rfl | rfl
    · exact leaves_ttl (.inl rfl) hq
    · exact leaves_ttl (.inr rfl) hq
  · refine leaves_of_reader ?_
    simp only [Command.harmless, Bool.and_eq_true, Bool.not_eq_true'] at h
    rw [not_or] at ht
    simp [Command.reader, h, ht, hx]

/-! ## Transactions -/

/-- The command a request names, if it names one, satisfies `p`. -/
def RequestIs (p : Command → Bool) (req : RespValue) : Prop :=
  ∀ name c, rawName req = .ok name → lookup name = some c → p c = true

/-- Commands all of which write nothing to stores that satisfy `I`. -/
structure Idle (I : KvStore F → Prop) (p : Command → Bool) : Prop where
  keep : ∀ {now s s'}, SameItems now s s' → I s → I s'
  leaves : ∀ {c env args ctx} {sv : Server F}, p c = true → I sv.store →
    Leaves env.now ctx sv (handleQueued c env args ctx sv)
  unlisted : ∀ {c}, p c = true → c.mutating = false

theorem idle_reader : Idle (fun _ : KvStore F => True) Command.reader where
  keep _ _ := trivial
  leaves h _ := leaves_of_reader h
  unlisted h := by
    simp only [Command.reader, Bool.and_eq_true, Bool.not_eq_true'] at h
    exact h.1.1.1.1

theorem idle_harmless (lo hi : Int) : Idle (fun s : KvStore F => Quiet lo hi s) Command.harmless where
  keep h hq := h.quiet hq
  leaves h hq := leaves_of_harmless h hq
  unlisted h := by
    simp only [Command.harmless, Bool.and_eq_true, Bool.not_eq_true'] at h
    exact h.1

namespace Idle

variable {I : KvStore F → Prop} {p : Command → Bool} {req : RespValue}

theorem not_mutating (h : Idle I p) (hr : RequestIs p req) :
    isMutatingCommand (upperCmd req) = false := by
  rw [← Bool.not_eq_true]
  intro hm
  obtain ⟨name, c, hname, -, hl, hc⟩ := mutating_request hm
  rw [h.unlisted (hr name c hname hl)] at hc
  cases hc

theorem recordQueued_eq (h : Idle I p) (hr : RequestIs p req) (rsp : RespValue) (sv : Server F) :
    recordQueued req rsp sv = sv := by
  unfold recordQueued
  rw [h.not_mutating hr, Bool.and_false, if_neg Bool.false_ne_true]

theorem dispatchExecOne (h : Idle I p) (hr : RequestIs p req) (hi : I sv.store) :
    Leaves env.now ctx sv (dispatchExecOne handleQueued env req ctx sv) := by
  unfold Kv.dispatchExecOne
  split
  · exact .reply _
  next name hname =>
    split
    · exact .reply _
    next c hl => exact h.leaves (hr name c hname hl) hi

theorem execQueue (h : Idle I p) (queue : List RespValue) (hq : ∀ req ∈ queue, RequestIs p req)
    (ctx : KvContext) (sv : Server F) (hi : I sv.store) (rsp : RespValue) :
    Leaves env.now ctx sv (rsp, (execQueue env queue ctx sv).2) := by
  induction queue generalizing ctx sv with
  | nil => exact .reply rsp
  | cons req rest ih =>
    have hr := hq req List.mem_cons_self
    have hone : Leaves env.now ctx sv (Kv.dispatchExecOne handleQueued env req ctx sv) :=
      h.dispatchExecOne hr hi
    unfold Kv.execQueue
    simp only [h.recordQueued_eq hr]
    exact hone.trans (ih (fun r hm => hq r (List.mem_cons_of_mem _ hm)) _ _ (h.keep hone.items hi))

theorem exec (h : Idle I p) (hq : ∀ req ∈ ctx.multiQueue, RequestIs p req) (hi : I sv.store) :
    Leaves env.now ctx sv (exec env args ctx sv) := by
  have hreads : Reads (Commands.watchConflict ctx.watched : StoreM F _) := reads_watchConflict _
  have hsame := (hreads env sv.store trivial trivial).item
  have hend : ∀ rsp, Leaves env.now ctx sv
      (rsp, Commands.endMulti ctx, (sv.onStore (Commands.watchConflict ctx.watched) env).2) :=
    fun rsp => ⟨hsame, rfl, rfl, rfl, rfl, .inr rfl⟩
  unfold Kv.exec
  split
  · exact .reply _
  · split
    · exact .reply _
    · dsimp only
      split
      · exact hend _
      · exact (hend .null).trans (h.execQueue _ hq _ _ (h.keep hsame hi) _)

theorem handle (h : Idle I p) (hc : c = .exec ∨ p c = true)
    (hq : ∀ req ∈ ctx.multiQueue, RequestIs p req) (hi : I sv.store) :
    Leaves env.now ctx sv (handle c env args ctx sv) := by
  by_cases hx : c = .exec
  · subst hx
    exact h.exec hq hi
  · rw [handle_eq_handleQueued hx]
    exact h.leaves (hc.resolve_left hx) hi

end Idle

end

end Kv
