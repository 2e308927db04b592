import ZeroFrameworks.Kv.Server.Effects

/-!
# Commands that can be run again

The log and the replicas get the text of a mutating command and run it again, at another time, on a
store with the same contents.  This reproduces the effect when

    Repeatable lo hi args c      the command draws nothing at random and sets no deadline or id
        that depends on the clock between lo and hi
    CleanFailure now db args s c an error reply means that nothing was changed

and, as no waiter may take what a push adds, when nobody waits.  The first makes two runs agree
(`handle_agree`), the second makes it right to leave out what failed (`handle_fails`).
-/

namespace Kv

variable {F : Type} [Platform F]

/-! ## Conditions -/

/-- The command does the same at every clock reading from `lo` to `hi`. -/
def Repeatable (lo hi : Int) (args : List RespValue) : Command → Prop
  | .store .set => Commands.SetFixed lo hi args
  | .store .setex => Commands.SetexFixed lo hi args
  | .store .getex => Commands.GetexFixed lo hi args
  | .store .expire => Commands.ExpireFixed lo hi (fun n now => i64 (now + n * 1000)) args
  | .store .pexpire => Commands.ExpireFixed lo hi (fun n now => i64 (now + n)) args
  | .store .expireat => Commands.ExpireFixed lo hi (fun n _ => i64 (n * 1000)) args
  | .store .pexpireat => Commands.ExpireFixed lo hi (fun n _ => n) args
  | .store .restore => Commands.RestoreFixed lo hi args
  | .store .xadd => strAt args 2 = lit "*" → lo = hi
  | .store .spop | .store .xclaim => False
  | _ => True

/-- When the command fails on `s`, it has changed nothing. -/
def CleanFailure (now db : Int) (args : List RespValue) (s : KvStore F) : Command → Prop
  | .store .mset => (stringPairs (args.drop 1)).isSome
  | .store .hdel => (strings (args.drop 2)).isSome
  | .store .rpoplpush => KvStore.CanMove now db (strAt args 1) (strAt args 2) s
  | .store .xadd => strAt args 2 = lit "*" ∨ s.live now db (strAt args 1) ≠ none
  | _ => True

/-! ## Store commands -/

section

variable {lo hi db : Int} {args : List RespValue}

/-- The mutating store commands whose error replies are clean on every store. -/
theorem steady_handleStore {c : StoreCommand} (hm : (Command.store c).mutating = true)
    (hr : Repeatable lo hi args (.store c)) (hmset : c ≠ .mset) (hhdel : c ≠ .hdel)
    (hrpoplpush : c ≠ .rpoplpush) (hxadd : c ≠ .xadd) :
    Steady lo hi (handleStore c db args : StoreM F _) := by
  cases c
  case mset => exact absurd rfl hmset
  case hdel => exact absurd rfl hhdel
  case rpoplpush => exact absurd rfl hrpoplpush
  case xadd => exact absurd rfl hxadd
  case spop | xclaim => exact hr.elim
  case flushdb => exact Commands.steady_flushdb
  case flushall => exact Commands.steady_flushall db
  case getset => exact Commands.steady_getset
  case getdel => exact Commands.steady_getdel
  case set => exact Commands.steady_set hr
  case setex => exact Commands.steady_setex hr
  case expire => exact Commands.steady_expire hr
  case pexpire => exact Commands.steady_pexpire hr
  case persist => exact Commands.steady_persist
  case expireat => exact Commands.steady_expireat hr
  case pexpireat => exact Commands.steady_pexpireat hr
  case del => exact Commands.steady_del
  case incr | decr => exact Commands.steady_dispatchIncrBy
  case incrby => exact Commands.steady_incrby
  case decrby => exact Commands.steady_decrby
  case hset => exact Commands.steady_hset
  case hmset => exact Commands.steady_hmset
  case lpop | rpop => exact Commands.steady_pop
  case sadd => exact Commands.steady_sadd
  case srem => exact Commands.steady_srem
  case zadd => exact Commands.steady_zadd
  case zrem => exact Commands.steady_zrem
  case zincrby => exact Commands.steady_zincrby
  case append => exact Commands.steady_append
  case hincrby => exact Commands.steady_hincrby
  case ltrim => exact Commands.steady_ltrim
  case lset => exact Commands.steady_lset
  case lrem => exact Commands.steady_lrem
  case rename => exact Commands.steady_rename
  case renamenx => exact Commands.steady_renamenx
  case xdel => exact Commands.steady_xdel
  case getex => exact Commands.steady_getex hr
  case setnx => exact Commands.steady_setnx
  case hsetnx => exact Commands.steady_hsetnx
  case zpopmin => exact Commands.steady_zpopmin
  case zpopmax => exact Commands.steady_zpopmax
  case xgroup => exact Commands.steady_xgroup
  case xack => exact Commands.steady_xack
  case msetnx => exact Commands.steady_msetnx
  case incrbyfloat => exact Commands.steady_incrbyfloat
  case linsert => exact Commands.steady_linsert
  case sinterstore => exact Commands.steady_sinterstore
  case sunionstore => exact Commands.steady_sunionstore
  case sdiffstore => exact Commands.steady_sdiffstore
  case xtrim => exact Commands.steady_xtrim
  case restore => exact Commands.steady_restore hr
  all_goals cases hm

theorem det_handleStore {c : StoreCommand} (hm : (Command.store c).mutating = true)
    (hr : Repeatable lo hi args (.store c)) : Det lo hi (handleStore c db args : StoreM F _) := by
  by_cases hmset : c = .mset
  · subst hmset
    exact .ite (fun _ => .pure _) fun _ => Commands.det_msetLoop
  by_cases hhdel : c = .hdel
  · subst hhdel
    exact .ite (fun _ => .pure _) fun _ => Commands.det_hdelLoop
  by_cases hrpoplpush : c = .rpoplpush
  · subst hrpoplpush
    exact Commands.det_rpoplpush
  by_cases hxadd : c = .xadd
  · subst hxadd
    exact Commands.det_xadd hr
  · exact (steady_handleStore hm hr hmset hhdel hrpoplpush hxadd).det

theorem fails_handleStore {c : StoreCommand} {env : Env} {s : KvStore F}
    (hm : (Command.store c).mutating = true) (hr : Repeatable lo hi args (.store c))
    (hc : CleanFailure env.now db args s (.store c)) (hn : s.conf.NoEvict)
    (he : IsErr (handleStore c db args env s).1) : Same env.now s (handleStore c db args env s).2 := by
  by_cases hmset : c = .mset
  · subst hmset
    have hs : Steady lo hi (Commands.mset db args : StoreM F _) := Commands.steady_mset hc
    exact hs.fails env s hn he
  by_cases hhdel : c = .hdel
  · subst hhdel
    have hs : Steady lo hi (Commands.hdel db args : StoreM F _) := Commands.steady_hdel hc
    exact hs.fails env s hn he
  by_cases hrpoplpush : c = .rpoplpush
  · subst hrpoplpush
    exact Commands.fails_rpoplpush hc he
  by_cases hxadd : c = .xadd
  · subst hxadd
    exact Commands.fails_xadd hn hc he
  · exact (steady_handleStore hm hr hmset hhdel hrpoplpush hxadd).fails env s hn he

end

/-! ## All mutating commands -/

theorem pushAndNotify_nil (command : String) (left : Bool) (db : Int) (args : List RespValue)
    (env : Env) (s : KvStore F) :
    Commands.pushAndNotify command left [] db args env s =
      (((Commands.push command left db args env s).1, []), (Commands.push command left db args env s).2) := by
  simp only [Commands.pushAndNotify, StoreM.bind_apply]
  split <;> rfl

/-- The database a SELECT request names, when it is well formed. -/
def selectTarget (args : List RespValue) : Option Int :=
  if args.length ≠ 2 then none else args[1]?.bind parseDbIndex

section

variable {lo hi : Int} {args : List RespValue} {c : Command} {env env' : Env} {ctx ctx' : KvContext}
  {sv sv' : Server F}

theorem select_state (env : Env) (args : List RespValue) (ctx : KvContext) (sv : Server F) :
    (Commands.select env args ctx sv).2 =
    ({ ctx with db := (selectTarget args).getD ctx.db }, sv) := by
  unfold Commands.select selectTarget
  split
  · rfl
  · cases args[1]?.bind parseDbIndex <;> rfl

theorem select_isError (env : Env) (args : List RespValue) (ctx : KvContext) (sv : Server F) :
    (Commands.select env args ctx sv).1.isError = (selectTarget args).isNone := by
  unfold Commands.select selectTarget
  split
  · rfl
  · cases args[1]?.bind parseDbIndex <;> rfl

theorem select_reply :
    (Commands.select env args ctx sv).1 = (Commands.select env' args ctx' sv').1 := by
  unfold Commands.select
  split
  · rfl
  · cases args[1]?.bind parseDbIndex <;> rfl

/-- A mutating command changes the store, the waiters it wakes and, for SELECT, the selected
database. -/
theorem handle_frame (hm : c.mutating = true) (env : Env) (args : List RespValue) (ctx : KvContext)
    (sv : Server F) : ∃ db store waiters, (handle c env args ctx sv).2 =
      ({ ctx with db := db }, { sv with store := store, waiters := waiters }) := by
  cases c with
  | store c => exact ⟨ctx.db, _, sv.waiters, rfl⟩
  | push c => exact ⟨ctx.db, _, _, rfl⟩
  | server c =>
    cases c with
    | select => exact ⟨_, sv.store, sv.waiters, select_state env args ctx sv⟩
    | _ => cases hm
  | eval => cases hm
  | evalsha => cases hm
  | exec => cases hm

theorem handle_waiters (hm : c.mutating = true) (hw : sv.waiters = []) :
    (handle c env args ctx sv).2.2.waiters = [] := by
  cases c with
  | store c => exact hw
  | push c =>
    show (handlePush c sv.waiters ctx.db args env sv.store).1.2 = []
    rw [hw]
    cases c with
    | lpush => exact congrArg (·.1.2) (pushAndNotify_nil "lpush" true ctx.db args env sv.store)
    | rpush => exact congrArg (·.1.2) (pushAndNotify_nil "rpush" false ctx.db args env sv.store)
    | brpoplpush => cases hm
  | server c =>
    cases c with
    | select =>
      show (Commands.select env args ctx sv).2.2.waiters = []
      rw [select_state]
      exact hw
    | _ => cases hm
  | eval => cases hm
  | evalsha => cases hm
  | exec => cases hm

theorem handle_db (hm : c.mutating = true) : (handle c env args ctx sv).2.1.db =
    if c = .server .select then (selectTarget args).getD ctx.db else ctx.db := by
  cases c with
  | store c => rfl
  | push c => rfl
  | server c =>
    cases c with
    | select => exact congrArg (·.1.db) (select_state env args ctx sv)
    | _ => cases hm
  | eval => cases hm
  | evalsha => cases hm
  | exec => cases hm

/-- Two runs of a repeatable command on stores with the same contents, in the same database. -/
theorem handle_agree (hm : c.mutating = true) (hr : Repeatable lo hi args c)
    (h1 : Within lo hi env) (h2 : Within lo hi env') (hw : sv.waiters = []) (hw' : sv'.waiters = [])
    (hdb : ctx.db = ctx'.db) (h : Agree lo hi sv.store sv'.store) :
    (handle c env args ctx sv).1 = (handle c env' args ctx' sv').1 ∧
      Agree lo hi (handle c env args ctx sv).2.2.store (handle c env' args ctx' sv').2.2.store := by
  cases c with
  | store c =>
    have hd : Det lo hi (handleStore c ctx.db args : StoreM F _) := det_handleStore hm hr
    have hrun := hd env env' _ _ h1 h2 h
    show (handleStore c ctx.db args env sv.store).1 = (handleStore c ctx'.db args env' sv'.store).1 ∧
      Agree lo hi (handleStore c ctx.db args env sv.store).2
        (handleStore c ctx'.db args env' sv'.store).2
    rw [← hdb]
    exact hrun
  | push c =>
    have hp : ∀ command left,
        let r := Commands.pushAndNotify command left [] ctx.db args env sv.store
        let r' := Commands.pushAndNotify command left [] ctx.db args env' sv'.store
        r.1.1 = r'.1.1 ∧ Agree lo hi r.2 r'.2 := by
      intro command left
      simp only [pushAndNotify_nil]
      exact Commands.steady_push.det env env' _ _ h1 h2 h
    simp only [handle, handleQueued, handleBasic, runPush, Server.onStore, hw, hw', ← hdb]
    cases c with
    | lpush => exact hp "lpush" true
    | rpush => exact hp "rpush" false
    | brpoplpush => cases hm
  | server c =>
    cases c with
    | select =>
      show (Commands.select env args ctx sv).1 = (Commands.select env' args ctx' sv').1 ∧
        Agree lo hi (Commands.select env args ctx sv).2.2.store
          (Commands.select env' args ctx' sv').2.2.store
      rw [select_state, select_state]
      exact ⟨select_reply, h⟩
    | _ => cases hm
  | eval => cases hm
  | evalsha => cases hm
  | exec => cases hm

/-- An error reply of a mutating command leaves the contents and the selected database. -/
theorem handle_fails (hm : c.mutating = true) (hr : Repeatable lo hi args c)
    (hc : CleanFailure env.now ctx.db args sv.store c) (hw : sv.waiters = [])
    (hn : sv.store.conf.NoEvict) (he : IsErr (handle c env args ctx sv).1) :
    Same env.now sv.store (handle c env args ctx sv).2.2.store ∧
      (handle c env args ctx sv).2.1.db = ctx.db := by
  cases c with
  | store c => exact ⟨fails_handleStore hm hr hc hn he, rfl⟩
  | push c =>
    simp only [handle, handleQueued, handleBasic, runPush, Server.onStore, hw] at he ⊢
    have hp : ∀ command left,
        let r := Commands.pushAndNotify command left [] ctx.db args env sv.store
        IsErr r.1.1 → Same env.now sv.store r.2 := by
      intro command left
      simp only [pushAndNotify_nil]
      have hs : Steady lo hi (Commands.push command left ctx.db args : StoreM F _) :=
        Commands.steady_push
      exact hs.fails env sv.store hn
    cases c with
    | lpush => exact ⟨hp "lpush" true he, trivial⟩
    | rpush => exact ⟨hp "rpush" false he, trivial⟩
    | brpoplpush => cases hm
  | server c =>
    cases c with
    | select =>
      have hnone : (selectTarget args).isNone = true := by
        rw [← select_isError env args ctx sv]
        exact he
      show Same env.now sv.store (Commands.select env args ctx sv).2.2.store ∧
        (Commands.select env args ctx sv).2.1.db = ctx.db
      rw [select_state, Option.isNone_iff_eq_none.mp hnone]
      exact ⟨Same.refl _ _, rfl⟩
    | _ => cases hm
  | eval => cases hm
  | evalsha => cases hm
  | exec => cases hm

end

end Kv
